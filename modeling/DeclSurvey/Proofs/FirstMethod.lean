import DeclSurvey.Proofs.Structure

/-! # Members and the first method

Methods are recognised by the kind of their line.  The member scan does not look at that kind: it
tells methods by a parenthesis, or by the word `function` once a comment is cut off.  This file
says when the scan still stops in front of the first method.

* `Members.Stage.member?_of_method`, `Members.Stage.next_of_method`: what a method line does in
  the scan;
* `Members.scan_append_method_eq_iff`: the scan stops in front of a method line unless the line is
  inside the body and holds no parenthesis;
* `Facts.beforeMethod`, `Facts.firstMethod?`: where the first method cuts the lines of a file. -/

namespace DeclSurvey

/-- A method line mentions the word `function`. -/
theorem Line.mentionsFunction_of_method {raw : Text} (h : (ofRaw raw).kind = .method) :
    (ofRaw raw).mentionsFunction = true := by
  have hmethod : LineKind.isMethodText (clean raw) = true := LineKind.isMethodText_of_ofText h
  exact Text.occursIn_iff.2 (LineKind.functionMark_infix_of_isMethodText hmethod)

namespace Members

/-! ### A method line in the scan -/

namespace Stage
variable {stage : Stage} {l : Line}

theorem inBody_of_method (hkind : l.kind = .method) : stage.inBody l = (stage == inside) := by
  unfold inBody
  rw [hkind]
  exact Bool.or_false _

/-- A method line is collected exactly inside the body and without a parenthesis. -/
theorem member?_of_method (hkind : l.kind = .method) :
    stage.member? l =
      if stage = inside ∧ l.hasParenthesis = false then some (tidy l.text) else none := by
  unfold member?
  rw [inBody_of_method hkind, hkind]
  cases stage <;> cases l.hasParenthesis <;> rfl

/-- A method line that is not collected ends the scan. -/
theorem next_of_method (hkind : l.kind = .method) (hfun : l.mentionsFunction = true)
    (h : ¬ (stage = inside ∧ l.hasParenthesis = false)) : stage.next l = ended := by
  unfold next
  rw [inBody_of_method hkind, hfun]
  cases stage with
  | ahead => rfl
  | ended => rfl
  | inside =>
    have hparen : l.hasParenthesis = true := by simpa using h
    rw [hparen]
    rfl

end Stage

/-- Whatever is collected shows in the sorted lists. -/
theorem sorted_append_eq_iff {ms ns : List Text} : sorted (ms ++ ns) = sorted ms ↔ ns = [] := by
  constructor
  · intro h
    have hlen := (perm_of_sorted_eq h).length_eq
    rw [List.length_append] at hlen
    exact List.length_eq_zero_iff.1 (by omega)
  · rintro rfl
    rw [List.append_nil]

/-- The scan stops in front of a method line, unless the line is inside the body and holds no
parenthesis. -/
theorem scan_append_method_eq_iff {pre post : List Line} {l : Line} (hkind : l.kind = .method)
    (hfun : l.mentionsFunction = true) :
    scan (pre ++ l :: post) = scan pre ↔
      ¬ (Stage.ahead.run pre = .inside ∧ l.hasParenthesis = false) := by
  rw [scan_eq_sorted, scan_eq_sorted, collect_append, sorted_append_eq_iff, collect,
    Stage.member?_of_method hkind]
  by_cases hadmit : Stage.ahead.run pre = .inside ∧ l.hasParenthesis = false
  · -- The line itself is collected, whatever follows.
    rw [if_pos hadmit]
    exact iff_of_false (List.cons_ne_nil _ _) (fun h => h hadmit)
  · rw [if_neg hadmit, Stage.next_of_method hkind hfun hadmit, collect_ended]
    exact iff_of_true rfl hadmit

end Members

namespace Facts

/-! ### The first method of a file -/

/-- The lines in front of the first method, and all lines if there is none. -/
def beforeMethod (ls : List Line) : List Line :=
  ls.takeWhile (·.kind != .method)

/-- The line of the first method. -/
def firstMethod? (ls : List Line) : Option Line :=
  ls.find? (·.kind == .method)

theorem beforeMethod_of_none {ls : List Line} (h : firstMethod? ls = none) :
    beforeMethod ls = ls := by
  unfold beforeMethod
  rw [List.takeWhile_eq_self_iff]
  intro l hl
  have hnot := List.find?_eq_none.1 h l hl
  simpa using hnot

/-- The first method cuts the lines in two. -/
theorem exists_eq_append_of_firstMethod? {ls : List Line} {l : Line}
    (h : firstMethod? ls = some l) :
    l.kind = .method ∧ ∃ post, beforeMethod ls ++ l :: post = ls := by
  obtain ⟨hkind, pre, post, rfl, hpre⟩ := List.find?_eq_some_iff_append.1 h
  refine ⟨by simpa using hkind, post, ?_⟩
  unfold beforeMethod
  rw [List.takeWhile_append_of_pos (by simpa using hpre),
    List.takeWhile_cons_of_neg (by simpa using hkind), List.append_nil]

/-- The scan of all lines is that of the lines in front of the first method, unless the method is
inside the body and holds no parenthesis. -/
theorem scan_eq_scan_beforeMethod_iff {ls : List Line}
    (hfun : ∀ l ∈ ls, l.kind = .method → l.mentionsFunction = true) :
    Members.scan ls = Members.scan (beforeMethod ls) ↔
      ∀ l, firstMethod? ls = some l →
        Members.Stage.ahead.run (beforeMethod ls) = .inside → l.hasParenthesis = true := by
  cases hfirst : firstMethod? ls with
  | none =>
    rw [beforeMethod_of_none hfirst]
    exact iff_of_true rfl (fun l hl => absurd hl (by simp))
  | some l =>
    obtain ⟨hkind, post, hsplit⟩ := exists_eq_append_of_firstMethod? hfirst
    have hmem : l ∈ ls := List.mem_of_find?_eq_some hfirst
    have hscan := @Members.scan_append_method_eq_iff (beforeMethod ls) post l hkind
      (hfun l hmem hkind)
    rw [hsplit] at hscan
    rw [hscan]
    simp

/-- The members of a typical file are those in front of its first method, unless that method is
reached inside the body and holds no parenthesis on its line. -/
theorem members_eq_scan_beforeMethod_iff (source : Text)
    (htypical : (ofSource source).isAtypical = false) :
    (ofSource source).members = Members.scan (beforeMethod (written (classify source))) ↔
      ∀ l, firstMethod? (written (classify source)) = some l →
        Members.Stage.ahead.run (beforeMethod (written (classify source))) = .inside →
        l.hasParenthesis = true := by
  rw [members_of_typical htypical]
  apply scan_eq_scan_beforeMethod_iff
  intro l hl hkind
  have hmem : l ∈ classify source := (List.mem_filter.1 hl).1
  obtain ⟨raw, -, rfl⟩ := List.mem_map.1 hmem
  exact Line.mentionsFunction_of_method hkind

/-- A method with a list of parameters, in front of a constant that comes too late. -/
theorem members_beforeMethod_of_parenthesis :
    (ofSource "class A\n\x7b\n  const B;\n  public function c()\n  const D;\n".toList).members =
      Members.scan (beforeMethod (written (classify
        "class A\n\x7b\n  const B;\n  public function c()\n  const D;\n".toList))) := by
  refine (members_eq_scan_beforeMethod_iff _ (by decide +kernel)).2 ?_
  intro l hfirst _
  have hmethod : firstMethod? (written (classify
      "class A\n\x7b\n  const B;\n  public function c()\n  const D;\n".toList)) =
      some (Line.ofRaw "  public function c()".toList) := by
    decide +kernel
  rw [hmethod] at hfirst
  cases hfirst
  decide

/-- A method whose parameters start on the next line is itself reported as a property. -/
theorem not_all_members_beforeMethod :
    ¬ ∀ source : Text, (ofSource source).isAtypical = false →
      (ofSource source).members = Members.scan (beforeMethod (written (classify source))) := by
  intro h
  have hmembers := h "class A\n\x7b\n    const B = 1;\n    public function c\n    (\n    )\n".toList
    (by decide +kernel)
  revert hmembers
  decide +kernel

end Facts

end DeclSurvey
