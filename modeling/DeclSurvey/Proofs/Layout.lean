import DeclSurvey.Facts.Basic
import DeclSurvey.Proofs.Lines
import Mathlib.Data.List.Forall2

/-! # Layout of a file

The survey looks at a raw line once, to trim it and to see whether it starts with a letter.  White
space at the ends of a line is of no other consequence, and neither is the way in which it ends.

* `Line.alike_of_indentation`: lines that differ in their indentation look alike;
* `Facts.ofSource_eq_of_alike`: files whose lines look alike have the same facts;
* `alike_lines_withReturns`: a carriage return in front of each newline leaves all lines alike. -/

namespace DeclSurvey

/-! ### Indentation -/

namespace Line

/-- Any indentation is as good as another, where the line stays indented. -/
theorem alike_of_indentation {front front' x : Text} (h : ∀ c ∈ front, Text.isBlank c = true)
    (h' : ∀ c ∈ front', Text.isBlank c = true)
    (hletter : Text.startsWithLetter (front ++ x) = false)
    (hletter' : Text.startsWithLetter (front' ++ x) = false) :
    Alike (front' ++ x) (front ++ x) := by
  refine ⟨?_, by rw [hletter, hletter']⟩
  unfold Text.trim
  rw [Text.trimBy_front_append h, Text.trimBy_front_append h']

end Line

/-! ### Files that look alike -/

theorem map_ofRaw_eq_of_alike {xs ys : List Text} (h : List.Forall₂ Line.Alike xs ys) :
    xs.map Line.ofRaw = ys.map Line.ofRaw := by
  induction h with
  | nil => rfl
  | cons hline _ ih => rw [List.map_cons, List.map_cons, ih, Line.ofRaw_eq_of_alike hline]

theorem Facts.ofSource_eq_of_alike {source other : Text}
    (h : List.Forall₂ Line.Alike (Text.lines other) (Text.lines source)) :
    ofSource other = ofSource source := by
  unfold ofSource classify
  rw [map_ofRaw_eq_of_alike h]

/-- Files whose lines are the same but for one that looks alike. -/
theorem Facts.ofSource_eq_of_alike_line {source other x y : Text} {pre post : List Text}
    (h : Text.lines source = pre ++ x :: post) (h' : Text.lines other = pre ++ y :: post)
    (hline : Line.Alike y x) : ofSource other = ofSource source := by
  apply ofSource_eq_of_alike
  rw [h, h']
  have hsame : ∀ ls : List Text, List.Forall₂ Line.Alike ls ls := fun ls =>
    List.forall₂_same.2 fun l _ => Line.Alike.refl l
  exact List.rel_append (hsame pre) (List.Forall₂.cons hline (hsame post))

/-! ### Ends of lines -/

namespace Text

/-- A text with a carriage return in front of each newline. -/
def withReturns (t : Text) : Text :=
  replaceAll ['\n'] ['\r', '\n'] t

theorem withReturns_newline (t : Text) : withReturns ('\n' :: t) = '\r' :: '\n' :: withReturns t :=
  replaceAll_self_append (List.cons_ne_nil _ _) ['\r', '\n'] t

theorem withReturns_cons {c : Char} (h : c ≠ '\n') (t : Text) :
    withReturns (c :: t) = c :: withReturns t := by
  have hstart : NoStart ['\n'] [c] t := noStart_of_not_mem (by simpa using h.symm) t
  exact replaceAll_append hstart ['\r', '\n']

end Text

theorem alike_linesFrom_withReturns (read t : Text) :
    List.Forall₂ Line.Alike (Text.linesFrom read (Text.withReturns t)) (Text.linesFrom read t) := by
  induction t generalizing read with
  | nil =>
    refine List.forall₂_same.2 ?_
    intro l _
    exact Line.Alike.refl l
  | cons c t ih =>
    by_cases hc : c = '\n'
    · -- The new carriage return is dropped, and one that was there before is now kept.
      subst hc
      rw [Text.withReturns_newline, Text.linesFrom, if_neg (by decide), Text.linesFrom,
        if_pos rfl, Text.linesFrom, if_pos rfl]
      refine List.Forall₂.cons ?_ (ih [])
      have halike := Line.alike_dropLastReturn read.reverse
      rwa [Text.dropLastReturn, List.reverse_reverse] at halike
    · rw [Text.withReturns_cons hc, Text.linesFrom, if_neg hc, Text.linesFrom, if_neg hc]
      exact ih (c :: read)

/-- Carriage returns in front of the newlines leave all lines alike. -/
theorem alike_lines_withReturns (t : Text) :
    List.Forall₂ Line.Alike (Text.lines (Text.withReturns t)) (Text.lines t) :=
  alike_linesFrom_withReturns [] t

/-- Layout does not matter: neither carriage returns in front of the newlines, nor anything else
that keeps the trimmed lines and tells which of them start with a letter.  In particular, white
space may be added behind any line, and any indentation may stand in place of another in front of
a line that does not start with a letter. -/
theorem Facts.ofSource_layout (source : Text) :
    ofSource (Text.withReturns source) = ofSource source ∧
    (∀ other : Text, List.Forall₂ Line.Alike (Text.lines other) (Text.lines source) →
      ofSource other = ofSource source) ∧
    (∀ (other x back : Text) (pre post : List Text), (∀ c ∈ back, Text.isBlank c = true) →
      Text.lines source = pre ++ x :: post → Text.lines other = pre ++ (x ++ back) :: post →
      ofSource other = ofSource source) ∧
    ∀ (other x front front' : Text) (pre post : List Text),
      (∀ c ∈ front, Text.isBlank c = true) → (∀ c ∈ front', Text.isBlank c = true) →
      Text.startsWithLetter (front ++ x) = false → Text.startsWithLetter (front' ++ x) = false →
      Text.lines source = pre ++ (front ++ x) :: post →
      Text.lines other = pre ++ (front' ++ x) :: post →
      ofSource other = ofSource source := by
  refine ⟨ofSource_eq_of_alike (alike_lines_withReturns source), ?_, ?_, ?_⟩
  · intro other h
    exact ofSource_eq_of_alike h
  · intro other x back pre post hback h h'
    exact ofSource_eq_of_alike_line h h' (Line.alike_append_blank x hback)
  · intro other x front front' pre post hfront hfront' hletter hletter' h h'
    exact ofSource_eq_of_alike_line h h'
      (Line.alike_of_indentation hfront hfront' hletter hletter')

/-- One class in four layouts: with carriage returns, with blanks behind a line, with a tab in
place of spaces, and with all of these. -/
theorem Facts.ofSource_layout_constant :
    ofSource "class A\r\n\x7b\r\n  const B;\r\n".toList =
      ofSource "class A\n\x7b\n  const B;\n".toList ∧
    ofSource "class A \t\n\x7b\n  const B;".toList =
      ofSource "class A\n\x7b\n  const B;\n".toList ∧
    ofSource "class A\n\x7b\n\tconst B;\n".toList =
      ofSource "class A\n\x7b\n  const B;\n".toList ∧
    ofSource "class A \r\n \x7b\r\n\tconst B; ".toList =
      ofSource "class A\n\x7b\n  const B;\n".toList := by
  obtain ⟨hreturns, halike, hback, hfront⟩ :=
    ofSource_layout "class A\n\x7b\n  const B;\n".toList
  refine ⟨hreturns, ?_, ?_, ?_⟩
  · exact hback _ "class A".toList " \t".toList [] ["\x7b".toList, "  const B;".toList]
      (List.all_eq_true.1 (by decide)) rfl rfl
  · exact hfront _ "const B;".toList "  ".toList "\t".toList ["class A".toList, "\x7b".toList] []
      (List.all_eq_true.1 (by decide)) (List.all_eq_true.1 (by decide)) rfl rfl rfl rfl
  · refine halike _ ?_
    exact .cons ⟨rfl, rfl⟩ (.cons ⟨rfl, rfl⟩ (.cons ⟨rfl, rfl⟩ .nil))

end DeclSurvey
