import DeclSurvey.Proofs.Lines
import DeclSurvey.Source.Members
import Mathlib.Data.Multiset.Basic

/-! # The member scan as a machine

The scan goes through the lines in one of three stages: ahead of the body, inside it, or ended.
A line moves the stage and may be collected as a member.

* `Stage.next` and `Stage.member?` say what one line does, and `Stage.member?_eq_some_iff` which
  lines are collected;
* `collect` is what a run collects, in file order, and `collect_append` cuts a run in two;
* `scan_eq_sorted`: the scan sorts what is collected into its three lists;
* `perm_of_sorted_eq`: sorting loses nothing but the order between the lists;
* `collect_passed_append`: lines that are passed over may as well be missing;
* `member?_indented` and `next_indented`: an indented line inside the body, by its text;
* `scan_ne_of_member_dropped`, `scan_ne_of_member_ne`: one line can change the whole scan. -/

namespace DeclSurvey

namespace Members

/-! ### The text of a member -/

theorem dropComment_of_commented {t : Text} (h : commentMark <:+: t) :
    dropComment t = Text.trim (Text.beforeChar '/' t) :=
  if_pos (Text.occursIn_iff.2 h)

theorem dropComment_of_uncommented {t : Text} (h : ¬ commentMark <:+: t) : dropComment t = t :=
  if_neg fun hocc => h (Text.occursIn_iff.1 hocc)

/-- The cut is made at the first slash, so none is left. -/
theorem slash_not_mem_dropComment {t : Text} (h : commentMark <:+: t) : '/' ∉ dropComment t := by
  rw [dropComment_of_commented h]
  intro hmem
  exact Text.not_mem_beforeChar '/' t ((Text.trimBy_isInfix _ _).subset hmem)

theorem tidy_of_uncommented {t : Text} (h : ¬ commentMark <:+: t) :
    tidy t = closeList (Text.strip t) := by
  rw [tidy, dropComment_of_uncommented h]

theorem dropComment_isInfix (t : Text) : dropComment t <:+: t := by
  unfold dropComment
  split
  · exact (Text.trimBy_isInfix _ _).trans (List.takeWhile_prefix _).isInfix
  · exact List.infix_rfl

/-- A list is open at the end of a text if its last character is the bracket. -/
theorem closeList_eq (t : Text) :
    closeList t = if t.getLast? = some '[' then t ++ openListMark else t := by
  unfold closeList
  simp only [List.isSuffixOf_iff_suffix, List.singleton_suffix_iff_getLast?_eq_some]

/-- Closing a list brings in no text but that of the mark. -/
theorem infix_of_infix_closeList {part t : Text} (hne : part ≠ [])
    (hmark : ∀ c ∈ part, c ∉ openListMark) (h : part <:+: closeList t) : part <:+: t := by
  unfold closeList at h
  split at h
  · exact Text.infix_of_infix_append hne hmark h
  · exact h

/-! ### Stages -/

/-- How far the scan has come. -/
inductive Stage where
  /-- The body is not open yet. -/
  | ahead
  /-- The body is open and no function has been reached. -/
  | inside
  /-- A function has ended the scan. -/
  | ended
  deriving DecidableEq, Repr

namespace Stage

/-- The line is in the body, as the brace itself is. -/
def inBody (stage : Stage) (l : Line) : Bool :=
  stage == inside || l.kind == .bodyOpen

/-- The member that a line is collected as. -/
def member? (stage : Stage) (l : Line) : Option Text :=
  if stage != ended && stage.inBody l && !l.hasParenthesis && l.kind.isWordLed then
    some (tidy l.text)
  else none

/-- A line is collected if the scan has not ended, the line is in the body, holds no parenthesis
and starts with a letter. -/
theorem member?_eq_some_iff {stage : Stage} {l : Line} {m : Text} :
    stage.member? l = some m ↔
      (stage ≠ ended ∧ stage.inBody l = true ∧ l.hasParenthesis = false ∧
        l.kind.isWordLed = true) ∧ tidy l.text = m := by
  unfold member?
  rw [Option.ite_none_right_eq_some, Option.some.injEq]
  simp only [Bool.and_eq_true, bne_iff_ne, Bool.not_eq_eq_eq_not, Bool.not_true, and_assoc]

/-- The stage behind a line. -/
def next (stage : Stage) (l : Line) : Stage :=
  if stage == ended then ended
  else if stage.inBody l && !l.hasParenthesis then
    if l.kind.isWordLed && Text.occursIn functionMark (tidy l.text) then ended else inside
  else if l.mentionsFunction then ended
  else if stage.inBody l then inside
  else ahead

/-- The stage behind some lines. -/
def run (stage : Stage) (ls : List Line) : Stage :=
  ls.foldl next stage

end Stage

/-- The members that a run collects, in file order. -/
def collect : Stage → List Line → List Text
  | _, [] => []
  | stage, l :: ls => (stage.member? l).toList ++ collect (stage.next l) ls

theorem collect_append (stage : Stage) (ls ms : List Line) :
    collect stage (ls ++ ms) = collect stage ls ++ collect (stage.run ls) ms := by
  induction ls generalizing stage with
  | nil => rfl
  | cons l ls ih =>
    rw [List.cons_append, collect, ih, collect, List.append_assoc]
    rfl

@[simp] theorem collect_ended (ls : List Line) : collect .ended ls = [] := by
  induction ls with
  | nil => rfl
  | cons l ls ih => exact ih

/-- Whatever is collected comes from a line that holds no parenthesis and starts with a letter. -/
theorem exists_of_mem_collect {stage : Stage} {ls : List Line} {m : Text}
    (h : m ∈ collect stage ls) :
    ∃ l ∈ ls, l.hasParenthesis = false ∧ l.kind.isWordLed = true ∧ tidy l.text = m := by
  induction ls generalizing stage with
  | nil => cases h
  | cons l ls ih =>
    rw [collect, List.mem_append, Option.mem_toList] at h
    rcases h with h | h
    · obtain ⟨⟨-, -, hparen, hword⟩, heq⟩ := Stage.member?_eq_some_iff.1 h
      exact ⟨l, by simp, hparen, hword, heq⟩
    · obtain ⟨k, hk, hcollected⟩ := ih h
      exact ⟨k, by simp [hk], hcollected⟩

/-! ### Sorting -/

/-- Members sorted into their lists. -/
def sorted (ms : List Text) : Members where
  constants := ms.filter isConstant
  properties := ms.filter fun m => !isConstant m && !isCase m
  cases := ms.filter isCase

theorem isCase_eq_false_of_isConstant {m : Text} (h : isConstant m = true) : isCase m = false := by
  simp [isCase, h]

theorem add_sorted (m : Text) (ms : List Text) : add m (sorted ms) = sorted (m :: ms) := by
  unfold add
  by_cases hconst : isConstant m = true
  · have hcase := isCase_eq_false_of_isConstant hconst
    simp [sorted, hconst, hcase]
  · by_cases hcase : isCase m = true
    · simp [sorted, hconst, hcase]
    · simp [sorted, hconst, hcase]

/-- All members together are those that were sorted. -/
theorem sorted_perm (ms : List Text) :
    ((sorted ms).constants ++ ((sorted ms).cases ++ (sorted ms).properties)).Perm ms := by
  have hconst := List.filter_append_perm isConstant ms
  have hcase := List.filter_append_perm isCase (ms.filter fun m => !isConstant m)
  refine List.Perm.trans (List.Perm.append_left _ ?_) hconst
  have hcases : (ms.filter fun m => !isConstant m).filter isCase = (sorted ms).cases := by
    rw [List.filter_filter]
    apply List.filter_congr
    intro m _
    by_cases h : isConstant m = true
    · simp [h, isCase_eq_false_of_isConstant h]
    · simp [h]
  have hprops : (ms.filter fun m => !isConstant m).filter (fun m => !isCase m) =
      (sorted ms).properties := by
    rw [List.filter_filter]
    exact List.filter_congr fun m _ => Bool.and_comm _ _
  rwa [hcases, hprops] at hcase

/-- Sorting loses nothing but the order between the lists. -/
theorem perm_of_sorted_eq {ms ns : List Text} (h : sorted ms = sorted ns) : ms.Perm ns := by
  have hms := sorted_perm ms
  rw [h] at hms
  exact hms.symm.trans (sorted_perm ns)

/-! ### The scan -/

/-- The stage that a flag of the scan stands for. -/
def stageOf (inBody : Bool) : Stage :=
  if inBody then .inside else .ahead

theorem stageOf_ne_ended (inBody : Bool) : (stageOf inBody != .ended) = true := by
  cases inBody <;> rfl

theorem inBody_stageOf (inBody : Bool) (l : Line) :
    (stageOf inBody).inBody l = (inBody || l.kind == .bodyOpen) := by
  cases inBody <;> rfl

theorem member?_stageOf (inBody : Bool) (l : Line) :
    (stageOf inBody).member? l =
      if ((inBody || l.kind == .bodyOpen) && !l.hasParenthesis) && l.kind.isWordLed then
        some (tidy l.text)
      else none := by
  unfold Stage.member?
  rw [stageOf_ne_ended, inBody_stageOf, Bool.true_and]

theorem next_stageOf (inBody : Bool) (l : Line) :
    (stageOf inBody).next l =
      if (inBody || l.kind == .bodyOpen) && !l.hasParenthesis then
        if l.kind.isWordLed && Text.occursIn functionMark (tidy l.text) then .ended else .inside
      else if l.mentionsFunction then .ended
      else stageOf (inBody || l.kind == .bodyOpen) := by
  have hended : ¬ (stageOf inBody == .ended) = true := by cases inBody <;> exact Bool.false_ne_true
  unfold Stage.next
  rw [if_neg hended, inBody_stageOf]
  rfl

theorem scanFrom_eq_sorted (inBody : Bool) (ls : List Line) :
    scanFrom inBody ls = sorted (collect (stageOf inBody) ls) := by
  induction ls generalizing inBody with
  | nil => rfl
  | cons l ls ih =>
    unfold scanFrom collect
    rw [member?_stageOf, next_stageOf]
    by_cases hopen : ((inBody || l.kind == .bodyOpen) && !l.hasParenthesis) = true
    · -- A line of the body without a parenthesis: a member if it starts with a letter.
      have hbody : (inBody || l.kind == .bodyOpen) = true := (Bool.and_eq_true_iff.1 hopen).1
      have hrest := ih true
      rw [if_pos hopen, if_pos hopen, hopen, hbody, Bool.true_and]
      by_cases hword : l.kind.isWordLed = true
      · rw [if_pos hword, hword, if_pos rfl, Bool.true_and]
        by_cases hfun : Text.occursIn functionMark (tidy l.text) = true
        · rw [if_pos hfun, if_pos hfun, collect_ended]
          exact add_sorted (tidy l.text) []
        · rw [if_neg hfun, if_neg hfun, hrest, add_sorted]
          rfl
      · rw [if_neg hword, if_neg hword, Bool.eq_false_iff.2 hword, Bool.false_and]
        exact hrest
    · -- Any other line can only end the scan.
      rw [if_neg hopen, if_neg hopen, Bool.eq_false_iff.2 hopen, Bool.false_and]
      by_cases hfun : l.mentionsFunction = true
      · rw [if_pos hfun, if_pos hfun, collect_ended]
        rfl
      · rw [if_neg hfun, if_neg hfun]
        exact ih _

theorem scan_eq_sorted (ls : List Line) : scan ls = sorted (collect .ahead ls) :=
  scanFrom_eq_sorted false ls

/-! ### Lines that are passed over -/

namespace Stage

theorem member?_of_not_wordLed {l : Line} (hword : l.kind.isWordLed = false) (stage : Stage) :
    stage.member? l = none := by
  unfold member?
  rw [hword, Bool.and_false, if_neg Bool.false_ne_true]

/-- A line that does not start with a letter moves the stage only if it opens the body or mentions
a function. -/
theorem next_of_not_wordLed {l : Line} (hword : l.kind.isWordLed = false)
    (hopen : l.kind ≠ .bodyOpen) (hfun : l.mentionsFunction = false) (stage : Stage) :
    stage.next l = stage := by
  have hbrace : (l.kind == .bodyOpen) = false := by simpa using hopen
  unfold next inBody
  rw [hword, hfun, hbrace]
  cases stage <;> cases l.hasParenthesis <;> rfl

end Stage

/-- Lines that are not collected and leave the stage as it is may as well be missing. -/
theorem collect_passed_append {stage : Stage} {ls : List Line}
    (h : ∀ l ∈ ls, stage.member? l = none ∧ stage.next l = stage) (rest : List Line) :
    collect stage (ls ++ rest) = collect stage rest := by
  induction ls with
  | nil => rfl
  | cons l ls ih =>
    obtain ⟨hmember, hnext⟩ := h l (by simp)
    rw [List.cons_append, collect, hmember, hnext, ih fun k hk => h k (by simp [hk])]
    rfl

/-! ### Lines in front of the body -/

/-- In front of the body a line changes nothing unless it opens the body or mentions a function. -/
theorem ahead_of_front {l : Line} (hopen : l.kind ≠ .bodyOpen) (hfun : ¬ functionMark <:+: l.text) :
    Stage.ahead.member? l = none ∧ Stage.ahead.next l = .ahead := by
  have hbody : (l.kind == .bodyOpen) = false := by simpa using hopen
  have hfun : l.mentionsFunction = false := by
    rw [Bool.eq_false_iff]
    exact fun h => hfun (Text.occursIn_iff.1 h)
  have hmember := member?_stageOf false l
  have hnext := next_stageOf false l
  rw [hbody] at hmember hnext
  rw [hfun] at hnext
  exact ⟨hmember, hnext⟩

theorem collect_front_append {ls : List Line}
    (h : ∀ l ∈ ls, l.kind ≠ .bodyOpen ∧ ¬ functionMark <:+: l.text) (rest : List Line) :
    collect .ahead (ls ++ rest) = collect .ahead rest := by
  apply collect_passed_append
  intro l hl
  exact ahead_of_front (h l hl).1 (h l hl).2

/-! ### One line inside the body -/

theorem member?_inside (l : Line) :
    Stage.inside.member? l =
      if !l.hasParenthesis && l.kind.isWordLed then some (tidy l.text) else none :=
  member?_stageOf true l

theorem next_inside (l : Line) :
    Stage.inside.next l =
      if !l.hasParenthesis then
        if l.kind.isWordLed && Text.occursIn functionMark (tidy l.text) then .ended else .inside
      else if l.mentionsFunction then .ended
      else .inside :=
  next_stageOf true l

theorem next_inside_eq (l : Line) :
    Stage.inside.next l = .inside ∨ Stage.inside.next l = .ended := by
  rw [next_inside]
  split
  · split
    · exact Or.inr rfl
    · exact Or.inl rfl
  · split
    · exact Or.inr rfl
    · exact Or.inl rfl

/-- A line that makes a difference to the scan is in the body, holds no parenthesis and starts
with a letter. -/
theorem inside_of_scan_ne {ls : List Line} {l : Line} (h : scan (ls ++ [l]) ≠ scan ls) :
    Stage.ahead.run ls = .inside ∧ l.hasParenthesis = false ∧ l.kind.isWordLed = true := by
  have hmember : (Stage.ahead.run ls).member? l ≠ none := by
    intro hnone
    apply h
    rw [scan_eq_sorted, scan_eq_sorted, collect_append, collect, collect, hnone]
    simp
  obtain ⟨m, hm⟩ := Option.ne_none_iff_exists'.1 hmember
  obtain ⟨⟨-, hbody, hparen, hword⟩, -⟩ := Stage.member?_eq_some_iff.1 hm
  refine ⟨?_, hparen, hword⟩
  unfold Stage.inBody at hbody
  rcases Bool.or_eq_true_iff.1 hbody with hin | hbrace
  · exact eq_of_beq hin
  · -- The brace does not start with a letter.
    rw [eq_of_beq hbrace] at hword
    cases hword

section Indented
variable {x indent text back : Text}

/-- What an indented line does inside the body, by its text. -/
theorem member?_indented (h : Line.Indented x indent text back) :
    Stage.inside.member? (Line.ofRaw x) = if '(' ∈ text then none else some (tidy text) := by
  rw [member?_inside, h.ofRaw_eq]
  simp only [LineKind.isWordLed_ofText, h.letter, Bool.and_true, Line.hasParenthesis]
  by_cases hparen : '(' ∈ text
  · rw [if_pos hparen, if_neg (by simpa using hparen)]
  · rw [if_neg hparen, if_pos (by simpa using hparen)]

theorem next_indented (h : Line.Indented x indent text back) :
    Stage.inside.next (Line.ofRaw x) =
      if Text.occursIn functionMark (if '(' ∈ text then text else tidy text) then .ended
      else .inside := by
  rw [next_inside, h.ofRaw_eq]
  show (if !text.contains '(' then
      if (LineKind.ofText false text).isWordLed && Text.occursIn functionMark (tidy text) then
        Stage.ended
      else Stage.inside
    else if Text.occursIn functionMark text then Stage.ended
    else Stage.inside) = _
  rw [LineKind.isWordLed_ofText, h.letter, Bool.true_and]
  by_cases hparen : '(' ∈ text
  · rw [if_neg (by simpa using hparen), if_pos hparen]
  · rw [if_pos (by simpa using hparen), if_neg hparen]

end Indented

/-! ### One line changed -/

section Change
variable {pre post : List Line} {l l' : Line}

theorem scan_append_cons (hin : Stage.ahead.run pre = .inside) :
    scan (pre ++ l :: post) =
      sorted (collect .ahead pre ++
        ((Stage.inside.member? l).toList ++ collect (Stage.inside.next l) post)) := by
  rw [scan_eq_sorted, collect_append, hin]
  rfl

/-- A line that is collected as before and leaves the scan as before makes no difference. -/
theorem scan_eq_of_line_eq (hin : Stage.ahead.run pre = .inside)
    (hmember : Stage.inside.member? l' = Stage.inside.member? l)
    (hnext : Stage.inside.next l' = Stage.inside.next l) :
    scan (pre ++ l' :: post) = scan (pre ++ l :: post) := by
  rw [scan_append_cons hin, scan_append_cons hin, hmember, hnext]

/-- A member is missed if its line is no longer collected and does not open up others. -/
theorem scan_ne_of_member_dropped (hin : Stage.ahead.run pre = .inside) {m : Text}
    (hmember : Stage.inside.member? l = some m) (hdropped : Stage.inside.member? l' = none)
    (hnext : Stage.inside.next l = .ended → Stage.inside.next l' = .ended) :
    scan (pre ++ l' :: post) ≠ scan (pre ++ l :: post) := by
  intro heq
  rw [scan_append_cons hin, scan_append_cons hin, hmember, hdropped] at heq
  -- The run with the member collects one more, and then at least as much.
  have hlen := (perm_of_sorted_eq heq).length_eq
  simp only [List.length_append, Option.toList_none, Option.toList_some, List.length_cons,
    List.length_nil] at hlen
  have hle : (collect (Stage.inside.next l') post).length ≤
      (collect (Stage.inside.next l) post).length := by
    rcases next_inside_eq l' with h' | h'
    · rcases next_inside_eq l with h | h
      · rw [h, h']
      · rw [hnext h] at h'
        cases h'
    · rw [h', collect_ended]
      exact Nat.zero_le _
  omega

/-- A member that is reported differently is noticed. -/
theorem scan_ne_of_member_ne (hin : Stage.ahead.run pre = .inside) {m m' : Text}
    (hmember : Stage.inside.member? l = some m) (hmember' : Stage.inside.member? l' = some m')
    (hne : m' ≠ m) : scan (pre ++ l' :: post) ≠ scan (pre ++ l :: post) := by
  intro heq
  rw [scan_append_cons hin, scan_append_cons hin, hmember, hmember'] at heq
  have hperm : (m' :: collect (Stage.inside.next l') post).Perm
      (m :: collect (Stage.inside.next l) post) :=
    (List.perm_append_left_iff _).1 (perm_of_sorted_eq heq)
  have hlen := hperm.length_eq
  simp only [List.length_cons] at hlen
  -- Behind the line both runs collect the same, unless one has ended, and then neither does.
  have hrest : collect (Stage.inside.next l') post = collect (Stage.inside.next l) post := by
    rcases next_inside_eq l with h | h <;> rcases next_inside_eq l' with h' | h'
    · rw [h, h']
    · rw [h', collect_ended] at hlen ⊢
      exact (List.length_eq_zero_iff.1 (by simpa using hlen.symm)).symm
    · rw [h, collect_ended] at hlen ⊢
      exact List.length_eq_zero_iff.1 (by simpa using hlen)
    · rw [h, h']
  rw [hrest] at hperm
  have hcons := Multiset.coe_eq_coe.2 hperm
  rw [← Multiset.cons_coe, ← Multiset.cons_coe, Multiset.cons_inj_left] at hcons
  exact hne hcons

end Change

end Members

end DeclSurvey
