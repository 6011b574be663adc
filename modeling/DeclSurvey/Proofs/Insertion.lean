import DeclSurvey.Facts.Sheet
import DeclSurvey.Proofs.Structure

/-! # Inserted lines

Two sorts of lines can be put into a file without a change to anything but its number of lines:
blank lines, comments and punctuation anywhere, and any indented text behind the first function.

* `Line.Mute`: a line from which nothing but a member could be read;
* `Facts.ofLines_insert`: mute lines that make no difference to the member scan make no other
  difference either;
* `Members.scan_insert`: lines that the scan passes over where they are put in;
* `Members.Stage.run_of_function_mem`: a function with its parameters ends the scan for good;
* `Facts.ofSource_insert`: the same for a block that is put into a text. -/

namespace DeclSurvey

namespace Line

/-! ### Mute lines -/

/-- Nothing but a member could be read from the line. -/
structure Mute (l : Line) : Prop where
  /-- It holds no heading and no import. -/
  topLevel : l.topLevel = false
  /-- It is not tallied. -/
  kind_ne_declaration : ∀ s, l.kind ≠ .declaration s
  /-- It is no method. -/
  kind_ne_method : l.kind ≠ .method
  /-- It names no namespace. -/
  kind_ne_namespaceStatement : l.kind ≠ .namespaceStatement

theorem mute_ofRaw {raw : Text} (hletter : Text.startsWithLetter raw = false)
    (hdecl : ∀ s, (ofRaw raw).kind ≠ .declaration s) (hmethod : (ofRaw raw).kind ≠ .method) :
    (ofRaw raw).Mute := by
  refine ⟨hletter, hdecl, hmethod, ?_⟩
  -- A namespace statement would be top-level.
  intro hspace
  have htop := (LineKind.ofText_eq_namespaceStatement_iff.1 hspace).1
  rw [hletter] at htop
  cases htop

section Neutral
variable {raw : Text} (h : (ofRaw raw).kind ∈ [LineKind.blank, .comment, .punctuation])
include h

theorem isWordLed_of_neutral : (ofRaw raw).kind.isWordLed = false := by
  have hall : ∀ k ∈ [LineKind.blank, .comment, .punctuation], k.isWordLed = false := by decide
  exact hall _ h

theorem kind_ne_bodyOpen_of_neutral : (ofRaw raw).kind ≠ .bodyOpen := by
  have hall : ∀ k ∈ [LineKind.blank, .comment, .punctuation], k ≠ .bodyOpen := by decide
  exact hall _ h

/-- A line that starts with a letter keeps it when it is cleaned, and its kind is word-led. -/
theorem startsWithLetter_of_neutral : Text.startsWithLetter raw = false := by
  rw [Bool.eq_false_iff]
  intro hletter
  have hword := isWordLed_of_neutral h
  rw [kind_ofRaw, LineKind.isWordLed_ofText, startsWithLetter_clean hletter] at hword
  cases hword

theorem mute_of_neutral : (ofRaw raw).Mute := by
  have hword := isWordLed_of_neutral h
  refine mute_ofRaw (startsWithLetter_of_neutral h) ?_ ?_
  · intro s hkind
    rw [hkind] at hword
    cases hword
  · intro hkind
    rw [hkind] at hword
    cases hword

end Neutral

end Line

/-! ### Lines that the scan passes over -/

namespace Members

/-- Lines that the scan passes over in the stage that it has come to make no difference. -/
theorem scan_insert {pre xs : List Line}
    (h : ∀ l ∈ xs, (Stage.ahead.run pre).member? l = none ∧
      (Stage.ahead.run pre).next l = Stage.ahead.run pre) (post : List Line) :
    scan (pre ++ (xs ++ post)) = scan (pre ++ post) := by
  rw [scan_eq_sorted, scan_eq_sorted, collect_append .ahead pre (xs ++ post),
    collect_passed_append h, ← collect_append]

namespace Stage

/-- A function with its parameters ends the scan, whether the body is open or not. -/
theorem next_of_function {l : Line} (hparen : l.hasParenthesis = true)
    (hfun : l.mentionsFunction = true) (stage : Stage) : stage.next l = ended := by
  unfold next
  rw [hparen, hfun]
  cases stage <;> simp

theorem run_append (stage : Stage) (ls ms : List Line) :
    stage.run (ls ++ ms) = (stage.run ls).run ms :=
  List.foldl_append

@[simp] theorem run_ended (ls : List Line) : ended.run ls = ended := by
  induction ls with
  | nil => rfl
  | cons l ls ih => exact ih

theorem run_of_function_mem {l : Line} {ls : List Line} (hmem : l ∈ ls)
    (hparen : l.hasParenthesis = true) (hfun : l.mentionsFunction = true) (stage : Stage) :
    stage.run ls = ended := by
  obtain ⟨front, back, rfl⟩ := List.append_of_mem hmem
  have hnext : (stage.run front).next l = ended := next_of_function hparen hfun _
  rw [run_append]
  show ((stage.run front).next l).run back = ended
  rw [hnext, run_ended]

end Stage

end Members

namespace Facts

/-! ### Facts with more lines -/

/-- The same facts with `n` more lines. -/
def withMoreLines (n : Nat) (f : Facts) : Facts :=
  { f with lineCount := f.lineCount + n }

/-- On the sheet, more lines show in the field for their number alone. -/
theorem value_withMoreLines (n : Nat) (f : Facts) : ∀ field ∈ fields,
    field.1 ≠ "get_lines_count".toList → field.2 (f.withMoreLines n) = field.2 f := by
  simp only [fields, List.forall_mem_cons, List.not_mem_nil, false_implies, implies_true, and_true]
  and_intros <;> intro hkey <;> first | rfl | exact absurd rfl hkey

section Insert
variable {pre xs post : List Line}

theorem filter_insert {p : Line → Bool} (h : ∀ l ∈ xs, p l = false) :
    (pre ++ (xs ++ post)).filter p = (pre ++ post).filter p := by
  have hnone : xs.filter p = [] := List.filter_eq_nil_iff.2 (by simpa using h)
  rw [List.filter_append, List.filter_append, hnone, List.nil_append, List.filter_append]

theorem written_insert :
    written (pre ++ (xs ++ post)) = written pre ++ (written xs ++ written post) := by
  rw [written_append, written_append]

theorem tally_insert (h : ∀ l ∈ xs, l.Mute) :
    Tally.ofLines (pre ++ (xs ++ post)) = Tally.ofLines (pre ++ post) := by
  apply Tally.eq_of_count_eq (Tally.ordered_ofLines _) (Tally.ordered_ofLines _)
  intro s
  have hnone : ∀ l ∈ xs, Tally.opens s l = false := by
    intro l hl
    rw [Bool.eq_false_iff, ne_eq, Tally.opens_iff]
    exact (h l hl).kind_ne_declaration s
  rw [Tally.count_ofLines, Tally.count_ofLines, List.countP_eq_length_filter,
    List.countP_eq_length_filter, filter_insert hnone]

theorem findSome?_namespaceName?_insert (h : ∀ l ∈ xs, l.Mute) :
    (pre ++ (xs ++ post)).findSome? (·.namespaceName?) =
      (pre ++ post).findSome? (·.namespaceName?) := by
  have hnone : xs.findSome? (·.namespaceName?) = none := by
    rw [List.findSome?_eq_none_iff]
    intro l hl
    have hkind := (h l hl).kind_ne_namespaceStatement
    unfold Line.namespaceName?
    split
    · next heq => exact absurd heq hkind
    · rfl
  rw [List.findSome?_append, List.findSome?_append, hnone, Option.none_or, List.findSome?_append]

theorem headingOf_insert (h : ∀ l ∈ xs, l.Mute) :
    headingOf (pre ++ (xs ++ post)) = headingOf (pre ++ post) := by
  unfold headingOf
  rw [filter_insert fun l hl => (h l hl).topLevel]

theorem importsOf_insert (h : ∀ l ∈ xs, l.Mute) :
    importsOf (pre ++ (xs ++ post)) = importsOf (pre ++ post) := by
  unfold importsOf
  rw [filter_insert fun l hl => (h l hl).topLevel]

theorem methodsOf_insert (h : ∀ l ∈ xs, l.Mute) :
    methodsOf (pre ++ (xs ++ post)) = methodsOf (pre ++ post) := by
  have hnone : ∀ l ∈ xs, (l.kind == .method) = false := by
    intro l hl
    simpa using (h l hl).kind_ne_method
  unfold methodsOf
  rw [filter_insert hnone]

/-- Mute lines that make no difference to the member scan make none but to the number of lines. -/
theorem ofLines_insert (h : ∀ l ∈ xs, l.Mute)
    (hscan : Members.scan (written (pre ++ (xs ++ post))) = Members.scan (written (pre ++ post))) :
    ofLines (pre ++ (xs ++ post)) = (ofLines (pre ++ post)).withMoreLines xs.length := by
  have hlength : (pre ++ (xs ++ post)).length = (pre ++ post).length + xs.length := by
    simp only [List.length_append]
    omega
  unfold ofLines withMoreLines
  rw [hlength, findSome?_namespaceName?_insert h, tally_insert h]
  cases hatypical : (Tally.ofLines (pre ++ post)).isAtypical with
  | true =>
    -- The file is atypical with and without the lines, and nothing is read from either.
    have hatypical' : (Tally.ofLines (pre ++ (xs ++ post))).isAtypical = true := by
      rw [tally_insert h, hatypical]
    rw [structural_of_isAtypical hatypical, structural_of_isAtypical hatypical']
  | false =>
    have htypical' : (Tally.ofLines (pre ++ (xs ++ post))).isAtypical = false := by
      rw [tally_insert h, hatypical]
    have hwritten : ∀ l ∈ written xs, l.Mute := fun l hl => h l (List.mem_filter.1 hl).1
    rw [structural_eq_written hatypical, structural_eq_written htypical', hscan, written_insert,
      written_append, headingOf_insert hwritten, importsOf_insert hwritten,
      methodsOf_insert hwritten]

end Insert

/-! ### Insertion into a text -/

/-- The lines of a block are the only ones that it adds. -/
theorem ofSource_insert {a x : Text} (ha : Text.EndsLine a) (hx : Text.EndsLine x)
    (hmute : ∀ l ∈ classify x, l.Mute)
    (hscan : ∀ post : List Line,
      Members.scan (written (classify a) ++ (written (classify x) ++ post)) =
        Members.scan (written (classify a) ++ post)) (b : Text) :
    ofSource (a ++ (x ++ b)) = (ofSource (a ++ b)).withMoreLines (Text.lines x).length := by
  unfold ofSource
  rw [classify_append ha, classify_append hx, classify_append ha, ← length_classify]
  apply ofLines_insert hmute
  rw [written_insert, written_append]
  exact hscan _

/-- A line that is blank, a comment or punctuation, and does not mention a function, can be put
anywhere into a file: there is one more line, and everything else is as before. -/
theorem ofSource_insert_neutral (a x b : Text) (ha : Text.EndsLine a) (hx : '\n' ∉ x)
    (hkind : (Line.ofRaw x).kind ∈ [LineKind.blank, .comment, .punctuation])
    (hfun : ¬ functionMark <:+: Line.clean x) :
    ofSource (a ++ x ++ '\n' :: b) = (ofSource (a ++ b)).withMoreLines 1 ∧
    ∀ field ∈ fields, field.1 ≠ "get_lines_count".toList →
      field.2 (ofSource (a ++ x ++ '\n' :: b)) = field.2 (ofSource (a ++ b)) := by
  have hlines : Text.lines (x ++ ['\n']) = [Text.dropLastReturn x] := Text.lines_cons hx []
  have hclassify : classify (x ++ ['\n']) = [Line.ofRaw x] := by
    unfold classify
    rw [hlines, List.map_singleton, Line.ofRaw_dropLastReturn]
  have hsplit : a ++ x ++ '\n' :: b = a ++ ((x ++ ['\n']) ++ b) := by simp
  have heq : ofSource (a ++ x ++ '\n' :: b) = (ofSource (a ++ b)).withMoreLines 1 := by
    rw [hsplit, ofSource_insert ha (Or.inr ⟨x, rfl⟩), hlines]
    · rfl
    · rw [hclassify]
      simpa using Line.mute_of_neutral hkind
    · intro post
      apply Members.scan_insert
      intro l hl
      rw [hclassify] at hl
      have hl : l = Line.ofRaw x := List.mem_singleton.1 (List.mem_filter.1 hl).1
      subst hl
      have hword := Line.isWordLed_of_neutral hkind
      have hnot : (Line.ofRaw x).mentionsFunction = false := by
        rw [Bool.eq_false_iff]
        exact fun h => hfun (Text.occursIn_iff.1 h)
      exact ⟨Members.Stage.member?_of_not_wordLed hword _,
        Members.Stage.next_of_not_wordLed hword (Line.kind_ne_bodyOpen_of_neutral hkind) hnot _⟩
  refine ⟨heq, ?_⟩
  rw [heq]
  exact value_withMoreLines 1 _

/-- A comment with a parenthesis and a keyword, in front of a constant. -/
theorem ofSource_insert_neutral_comment :
    ofSource "class A\n\x7b\n    // enum (\n    const B;\n".toList =
      (ofSource "class A\n\x7b\n    const B;\n".toList).withMoreLines 1 :=
  (ofSource_insert_neutral "class A\n\x7b\n".toList "    // enum (".toList "    const B;\n".toList
    (Or.inr ⟨"class A\n\x7b".toList, rfl⟩) (by decide) (by decide)
    (by rw [← Text.occursIn_iff]; decide)).1

/-- Behind a function with its parameters, any lines that do not start with a letter and are
neither declarations nor methods can be put into a file: their number is added to the number of
lines, and everything else is as before. -/
theorem ofSource_insert_behind_function (a x b : Text) (ha : Text.EndsLine a)
    (hx : Text.EndsLine x)
    (hfun : ∃ raw ∈ Text.lines a, '(' ∈ Line.clean raw ∧ functionMark <:+: Line.clean raw)
    (hlines : ∀ raw ∈ Text.lines x, Text.startsWithLetter raw = false ∧
      (∀ s, (Line.ofRaw raw).kind ≠ .declaration s) ∧ (Line.ofRaw raw).kind ≠ .method) :
    ofSource (a ++ x ++ b) = (ofSource (a ++ b)).withMoreLines (Text.lines x).length ∧
    ∀ field ∈ fields, field.1 ≠ "get_lines_count".toList →
      field.2 (ofSource (a ++ x ++ b)) = field.2 (ofSource (a ++ b)) := by
  have hended : Members.Stage.ahead.run (written (classify a)) = .ended := by
    obtain ⟨raw, hraw, hparen, hmark⟩ := hfun
    have hblank : (Line.ofRaw raw).kind ≠ .blank := by
      rw [ne_eq, Line.kind_ofRaw_eq_blank_iff, ← Line.clean_eq_nil_iff]
      exact List.ne_nil_of_mem hparen
    have hmem : Line.ofRaw raw ∈ written (classify a) :=
      List.mem_filter.2 ⟨List.mem_map_of_mem hraw, by simpa using hblank⟩
    exact Members.Stage.run_of_function_mem hmem (by simpa [Line.hasParenthesis] using hparen)
      (Text.occursIn_iff.2 hmark) _
  have hmute : ∀ l ∈ classify x, l.Mute := by
    intro l hl
    obtain ⟨raw, hraw, rfl⟩ := List.mem_map.1 hl
    obtain ⟨hletter, hdecl, hmethod⟩ := hlines raw hraw
    exact Line.mute_ofRaw hletter hdecl hmethod
  have heq : ofSource (a ++ x ++ b) =
      (ofSource (a ++ b)).withMoreLines (Text.lines x).length := by
    rw [List.append_assoc]
    refine ofSource_insert ha hx hmute (Members.scan_insert ?_) b
    -- The scan has ended, and then it passes over everything.
    rw [hended]
    exact fun l _ => ⟨rfl, rfl⟩
  refine ⟨heq, ?_⟩
  rw [heq]
  exact value_withMoreLines _ _

/-- A body that looks like members and mentions a function, between two methods. -/
theorem ofSource_insert_behind_function_body :
    ofSource ("class A\n\x7b\n    const B;\n    function c()\n".toList ++
        "    \x7b\n        case d; // function e\n    \x7d\n".toList ++
        "    function f()\n".toList) =
      (ofSource ("class A\n\x7b\n    const B;\n    function c()\n".toList ++
        "    function f()\n".toList)).withMoreLines 3 := by
  have hkinds : ∀ raw ∈ Text.lines "    \x7b\n        case d; // function e\n    \x7d\n".toList,
      Text.startsWithLetter raw = false ∧
        (Line.ofRaw raw).kind ∈ [LineKind.bodyOpen, .statement, .punctuation] := by
    decide +kernel
  have hcount : (Text.lines "    \x7b\n        case d; // function e\n    \x7d\n".toList).length =
      3 := by decide +kernel
  rw [← hcount]
  refine (ofSource_insert_behind_function "class A\n\x7b\n    const B;\n    function c()\n".toList
    "    \x7b\n        case d; // function e\n    \x7d\n".toList "    function f()\n".toList
    (Or.inr ⟨"class A\n\x7b\n    const B;\n    function c()".toList, by decide +kernel⟩)
    (Or.inr ⟨"    \x7b\n        case d; // function e\n    \x7d".toList, by decide +kernel⟩)
    ⟨"    function c()".toList, by decide +kernel, by decide +kernel,
      Text.occursIn_iff.1 (by decide +kernel)⟩ ?_).1
  intro raw hraw
  obtain ⟨hletter, hkind⟩ := hkinds raw hraw
  refine ⟨hletter, ?_, ?_⟩
  · intro s hs
    rw [hs] at hkind
    simp at hkind
  · intro hmethod
    rw [hmethod] at hkind
    simp at hkind

end Facts

end DeclSurvey
