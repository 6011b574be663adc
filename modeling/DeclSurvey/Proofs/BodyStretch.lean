import DeclSurvey.Proofs.Members

/-! # The lines that the member scan reads

The scan is a loop that looks at one line after the other.  This file says without the loop which
lines it reads and what it makes of them.

* `Members.aheadOfBody` and `Members.bodyLines`: the first opening brace cuts the lines in two;
* `Members.stretch`: the lines of the body up to the first function;
* `Members.candidates`: the texts of the lines in a stretch that are members;
* `Members.collect_inside`: inside the body, a run collects the candidates of the stretch;
* `Members.scan_eq_stretch`: the scan sorts these, unless a function comes before the brace.

Text and kind of a line are not assumed to agree. -/

namespace DeclSurvey

namespace Members

/-! ### Which lines are read -/

/-- The lines in front of the first opening brace, and all lines if there is none. -/
def aheadOfBody (ls : List Line) : List Line :=
  ls.takeWhile (·.kind != .bodyOpen)

/-- The lines from the first opening brace on. -/
def bodyLines (ls : List Line) : List Line :=
  ls.dropWhile (·.kind != .bodyOpen)

/-- The line is a member if the scan comes to it: it starts with a letter and holds no
parenthesis. -/
def isCandidate (l : Line) : Bool :=
  l.kind.isWordLed && !l.hasParenthesis

/-- The line ends the stretch in front of it: a function with its parenthesis. -/
def endsBefore (l : Line) : Bool :=
  l.hasParenthesis && l.mentionsFunction

/-- The line is the last of the stretch: a member that reads like a function. -/
def endsBehind (l : Line) : Bool :=
  isCandidate l && Text.occursIn functionMark (tidy l.text)

/-- The lines that are read: up to the first line that ends the stretch, in front of it or behind
it, whichever comes first. -/
def stretch (ls : List Line) : List Line :=
  ls.take (min (ls.findIdx endsBefore) (ls.findIdx endsBehind + 1))

/-- The members among some lines, in their order. -/
def candidates (ls : List Line) : List Text :=
  (ls.filter isCandidate).map (tidy ·.text)

/-- A line that ends the stretch in front of it is no member, so no line does both. -/
theorem isCandidate_of_endsBefore {l : Line} (h : endsBefore l = true) : isCandidate l = false := by
  have hparen : l.hasParenthesis = true := (Bool.and_eq_true_iff.1 h).1
  unfold isCandidate
  rw [hparen]
  exact Bool.and_false _

/-- What one line adds to a stretch. -/
theorem stretch_cons (l : Line) (ls : List Line) :
    stretch (l :: ls) =
      if endsBefore l then []
      else if endsBehind l then [l]
      else l :: stretch ls := by
  unfold stretch
  rw [List.findIdx_cons, List.findIdx_cons]
  by_cases hbefore : endsBefore l = true
  · rw [if_pos hbefore, hbefore, cond_true, Nat.zero_min, List.take_zero]
  · rw [if_neg hbefore, Bool.eq_false_iff.2 hbefore, cond_false]
    by_cases hbehind : endsBehind l = true
    · -- One line is read, and whatever follows is not looked at.
      have hmin : min (ls.findIdx endsBefore + 1) (0 + 1) = 0 + 1 := by omega
      rw [if_pos hbehind, hbehind, cond_true, hmin, List.take_succ_cons, List.take_zero]
    · rw [if_neg hbehind, Bool.eq_false_iff.2 hbehind, cond_false, Nat.add_min_add_right,
        List.take_succ_cons]

theorem candidates_cons (l : Line) (ls : List Line) :
    candidates (l :: ls) = (if isCandidate l then [tidy l.text] else []) ++ candidates ls := by
  unfold candidates
  by_cases h : isCandidate l = true
  · rw [List.filter_cons_of_pos h, if_pos h]
    rfl
  · rw [List.filter_cons_of_neg h, if_neg h]
    rfl

/-! ### The run inside the body -/

/-- What one line does inside the body: it is collected if it is a member, and it ends the scan if
it ends the stretch. -/
theorem inside_step (l : Line) :
    Stage.inside.member? l = (if isCandidate l then some (tidy l.text) else none) ∧
    Stage.inside.next l = (if endsBefore l || endsBehind l then .ended else .inside) := by
  rw [member?_inside, next_inside]
  unfold endsBehind endsBefore isCandidate
  cases l.hasParenthesis <;> cases l.kind.isWordLed <;> cases l.mentionsFunction <;>
    exact ⟨rfl, rfl⟩

/-- Inside the body, a run collects the members of the stretch. -/
theorem collect_inside (ls : List Line) : collect .inside ls = candidates (stretch ls) := by
  induction ls with
  | nil => rfl
  | cons l ls ih =>
    obtain ⟨hmember, hnext⟩ := inside_step l
    rw [collect, hmember, hnext, stretch_cons]
    by_cases hbefore : endsBefore l = true
    · rw [if_pos hbefore, hbefore, isCandidate_of_endsBefore hbefore, Bool.true_or, if_pos rfl,
        collect_ended]
      rfl
    · rw [if_neg hbefore, Bool.eq_false_iff.2 hbefore, Bool.false_or]
      by_cases hbehind : endsBehind l = true
      · -- The member that reads like a function is still collected.
        have hcandidate : isCandidate l = true := (Bool.and_eq_true_iff.1 hbehind).1
        rw [if_pos hbehind, if_pos hbehind, collect_ended, candidates_cons, if_pos hcandidate,
          if_pos hcandidate]
        rfl
      · rw [if_neg hbehind, if_neg hbehind, ih, candidates_cons]
        by_cases hcandidate : isCandidate l = true
        · rw [if_pos hcandidate, if_pos hcandidate]
          rfl
        · rw [if_neg hcandidate, if_neg hcandidate]
          rfl

/-! ### The run up to the brace -/

/-- The brace is read as a line of the body. -/
theorem collect_ahead_bodyOpen {l : Line} (h : l.kind = .bodyOpen) (ls : List Line) :
    collect .ahead (l :: ls) = collect .inside (l :: ls) := by
  have hmember : Stage.ahead.member? l = Stage.inside.member? l := by
    unfold Stage.member? Stage.inBody
    rw [h]
    rfl
  have hnext : Stage.ahead.next l = Stage.inside.next l := by
    unfold Stage.next Stage.inBody
    rw [h]
    rfl
  rw [collect, collect, hmember, hnext]

/-- A function in front of the brace ends the scan before it has collected anything. -/
theorem collect_ahead_of_function {front : List Line} (hfront : ∀ l ∈ front, l.kind ≠ .bodyOpen)
    (hfun : ∃ l ∈ front, functionMark <:+: l.text) (rest : List Line) :
    collect .ahead (front ++ rest) = [] := by
  induction front with
  | nil =>
    obtain ⟨l, hl, -⟩ := hfun
    cases hl
  | cons l front ih =>
    have hopen : l.kind ≠ .bodyOpen := hfront l (by simp)
    by_cases hl : functionMark <:+: l.text
    · have hbrace : (l.kind == .bodyOpen) = false := by simpa using hopen
      have hmember := member?_stageOf false l
      have hnext := next_stageOf false l
      have hmentions : l.mentionsFunction = true := Text.occursIn_iff.2 hl
      rw [hbrace] at hmember hnext
      rw [hmentions] at hnext
      change Stage.ahead.member? l = none at hmember
      change Stage.ahead.next l = .ended at hnext
      rw [List.cons_append, collect, hmember, hnext, collect_ended]
      rfl
    · -- The line is passed over, so the function is further down.
      obtain ⟨hmember, hnext⟩ := ahead_of_front hopen hl
      have hlater : ∃ k ∈ front, functionMark <:+: k.text := by
        obtain ⟨k, hk, hkfun⟩ := hfun
        rcases List.mem_cons.1 hk with rfl | hk
        · exact absurd hkfun hl
        · exact ⟨k, hk, hkfun⟩
      rw [List.cons_append, collect, hmember, hnext,
        ih (fun k hk => hfront k (List.mem_cons_of_mem l hk)) hlater]
      rfl

theorem kind_ne_of_mem_aheadOfBody {ls : List Line} {l : Line} (h : l ∈ aheadOfBody ls) :
    l.kind ≠ .bodyOpen := by
  have htest := List.mem_takeWhile_imp h
  simpa using htest

theorem aheadOfBody_append_bodyLines (ls : List Line) : aheadOfBody ls ++ bodyLines ls = ls :=
  List.takeWhile_append_dropWhile

theorem bodyLines_eq_nil_iff {ls : List Line} :
    bodyLines ls = [] ↔ ∀ l ∈ ls, l.kind ≠ .bodyOpen := by
  unfold bodyLines
  rw [List.dropWhile_eq_nil_iff]
  simp

theorem kind_of_bodyLines_eq_cons {ls rest : List Line} {l : Line} (h : bodyLines ls = l :: rest) :
    l.kind = .bodyOpen := by
  have htest := List.head?_dropWhile_not (·.kind != .bodyOpen) ls
  unfold bodyLines at h
  rw [h] at htest
  simpa using htest

/-- What the scan collects: nothing if a function comes before the brace, and otherwise the
members of the stretch that the brace starts. -/
theorem collect_ahead (ls : List Line) :
    ((∃ l ∈ aheadOfBody ls, functionMark <:+: l.text) → collect .ahead ls = []) ∧
    ((∀ l ∈ aheadOfBody ls, ¬ functionMark <:+: l.text) →
      collect .ahead ls = candidates (stretch (bodyLines ls))) := by
  have hsplit : collect .ahead ls = collect .ahead (aheadOfBody ls ++ bodyLines ls) := by
    rw [aheadOfBody_append_bodyLines]
  rw [hsplit]
  constructor
  · intro hfun
    exact collect_ahead_of_function (fun l hl => kind_ne_of_mem_aheadOfBody hl) hfun _
  · intro hnone
    have hquiet : ∀ l ∈ aheadOfBody ls, l.kind ≠ .bodyOpen ∧ ¬ functionMark <:+: l.text :=
      fun l hl => ⟨kind_ne_of_mem_aheadOfBody hl, hnone l hl⟩
    rw [collect_front_append hquiet]
    cases hbody : bodyLines ls with
    | nil => rfl
    | cons l rest =>
      rw [collect_ahead_bodyOpen (kind_of_bodyLines_eq_cons hbody), collect_inside]

/-! ### The scan -/

/-- Sorting by the marks of constants and cases alone. -/
theorem sorted_eq_filters (ms : List Text) :
    sorted ms =
      { constants := ms.filter (Text.occursIn "const ".toList)
        cases := ms.filter fun m =>
          !Text.occursIn "const ".toList m && Text.occursIn "case ".toList m
        properties := ms.filter fun m =>
          !Text.occursIn "const ".toList m && !Text.occursIn "case ".toList m } := by
  have hothers : ∀ m ∈ ms, (!isConstant m && !isCase m) =
      (!Text.occursIn "const ".toList m && !Text.occursIn "case ".toList m) := by
    intro m _
    unfold isCase isConstant
    cases Text.occursIn "const ".toList m <;> rfl
  unfold sorted
  rw [List.filter_congr hothers]
  rfl

/-- The scan without its loop.  Nothing is reported if a line in front of the brace mentions a
function or if there is no brace.  Otherwise the members of the stretch that the brace starts are
sorted into constants, enumeration cases that are no constants, and all others; each list keeps
their order, and together they are these members, each as often as it stands there. -/
theorem scan_eq_stretch (ls : List Line) :
    ((∃ l ∈ aheadOfBody ls, functionMark <:+: l.text) ∨ (∀ l ∈ ls, l.kind ≠ .bodyOpen) →
      scan ls = {}) ∧
    ((∀ l ∈ aheadOfBody ls, ¬ functionMark <:+: l.text) → (∃ l ∈ ls, l.kind = .bodyOpen) →
      scan ls =
        { constants := (candidates (stretch (bodyLines ls))).filter (Text.occursIn "const ".toList)
          cases := (candidates (stretch (bodyLines ls))).filter fun m =>
            !Text.occursIn "const ".toList m && Text.occursIn "case ".toList m
          properties := (candidates (stretch (bodyLines ls))).filter fun m =>
            !Text.occursIn "const ".toList m && !Text.occursIn "case ".toList m } ∧
      ((scan ls).constants ++ ((scan ls).cases ++ (scan ls).properties)).Perm
        (candidates (stretch (bodyLines ls)))) := by
  obtain ⟨hended, hread⟩ := collect_ahead ls
  rw [scan_eq_sorted]
  constructor
  · intro hnone
    by_cases hfun : ∃ l ∈ aheadOfBody ls, functionMark <:+: l.text
    · rw [hended hfun]
      rfl
    · rw [hread fun l hl h => hfun ⟨l, hl, h⟩, bodyLines_eq_nil_iff.2 (hnone.resolve_left hfun)]
      rfl
  · intro hquiet _
    rw [hread hquiet]
    exact ⟨sorted_eq_filters _, sorted_perm _⟩

/-- A body that only the kind of its brace opens.  In it a line with a parenthesis is passed over,
and so is punctuation that mentions a function; a member that reads like a function stands in front
of a constant that comes too late. -/
def mixedLines : List Line :=
  [⟨"class A".toList, true, .declaration .plainClass⟩,
    ⟨"begin".toList, false, .bodyOpen⟩,
    ⟨"case B".toList, false, .statement⟩,
    ⟨"const C = [".toList, false, .statement⟩,
    ⟨"#[D(1)]".toList, false, .statement⟩,
    ⟨"public function e".toList, false, .punctuation⟩,
    ⟨"public function f".toList, false, .method⟩,
    ⟨"const G = 1;".toList, false, .statement⟩]

theorem scan_mixedLines :
    scan mixedLines =
      { constants := ["const C = [...]".toList]
        cases := ["case B".toList]
        properties := ["public function f".toList] } ∧
    scan (⟨"function ".toList, true, .comment⟩ :: mixedLines) = {} := by
  constructor
  · obtain ⟨hscan, -⟩ := (scan_eq_stretch mixedLines).2 (by decide +kernel) (by decide +kernel)
    rw [hscan]
    decide +kernel
  · exact (scan_eq_stretch _).1 (Or.inl (by decide +kernel))

end Members

end DeclSurvey
