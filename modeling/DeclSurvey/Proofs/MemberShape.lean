import DeclSurvey.Proofs.Framing

/-! # The shape of a member

A member passes through a chain of cuts before it is reported: the line must start with a letter
and hold no parenthesis, the comment is cut off at a slash, the ends are stripped twice, and a list
left open is closed.  No cut brings back what an earlier one took away.

* **Text**: for any text at all, `tidy` leaves no comment mark (`commentMark_not_infix_tidy`) and
  nothing to take away at the end (`last_tidy`), and it keeps the letter in front
  (`startsWithLetter_tidy`).
* **Settled texts**: those that `tidy` leaves alone (`tidy_eq_self_iff`), and all that it gives
  (`settled_tidy`).  `exists_cutOut_tidy` says what it takes away, and `tidy_settles` has both.
* **Scan**: every collected member is `WellFormed` (`wellFormed_of_mem_collect`), and one that reads
  like a function ends the scan, so that there is at most one (`countP_function_collect_le`).
* **Sorting**: which list a member is in, by the words in it (`mem_constants_sorted_iff`,
  `mem_cases_sorted_iff`, `mem_properties_sorted_iff`).
* **Facts**: `Facts.members_wellFormed` says this of the members of a file. -/

namespace DeclSurvey

namespace Members

/-! ### The text of a member -/

/-- The cut leaves no slash, and the mark of a comment has one. -/
theorem commentMark_not_infix_dropComment (t : Text) : ¬ commentMark <:+: dropComment t := by
  by_cases hmark : commentMark <:+: t
  · intro h
    have hslash : '/' ∈ commentMark := by decide
    exact slash_not_mem_dropComment hmark (h.subset hslash)
  · rwa [dropComment_of_uncommented hmark]

theorem commentMark_not_infix_tidy (t : Text) : ¬ commentMark <:+: tidy t := by
  intro h
  have hstrip : commentMark <:+: Text.strip (dropComment t) :=
    infix_of_infix_closeList (by decide) (Text.disjoint_of_all (by decide)) h
  exact commentMark_not_infix_dropComment t (hstrip.trans (Text.trimBy_isInfix _ _))

/-- A text without padding at its end keeps none there when its list is closed, and no open list
either. -/
theorem last_closeList {t : Text} (h : Text.EndsClear Text.isPadding t) :
    ∀ c ∈ (closeList t).getLast?, c ≠ '[' ∧ Text.isPadding c = false := by
  intro c hc
  rw [closeList_eq] at hc
  split at hc
  · -- The list has been closed, so the last character is the bracket that closes it.
    rw [List.getLast?_append] at hc
    have hc : ']' = c := Option.some.inj hc
    rw [← hc]
    decide
  · next hlast =>
    refine ⟨?_, h.last c hc⟩
    rintro rfl
    exact hlast hc

theorem last_tidy (t : Text) : ∀ c ∈ (tidy t).getLast?, c ≠ '[' ∧ Text.isPadding c = false :=
  last_closeList (Text.endsClear_trimBy _ _)

theorem startsWithLetter_dropComment {t : Text} (h : Text.startsWithLetter t = true) :
    Text.startsWithLetter (dropComment t) = true := by
  unfold dropComment
  split
  · apply Text.startsWithLetter_trimBy fun c => Text.isBlank_eq_false_of_isAlpha
    -- A letter is no slash, so the cut is behind it.
    cases t with
    | nil => cases h
    | cons c t =>
      have hc : c.isAlpha = true := h
      have hslash : (c != '/') = true := by
        rw [bne_iff_ne]
        rintro rfl
        exact absurd hc (by decide)
      unfold Text.beforeChar
      rw [List.takeWhile_cons_of_pos (p := (· != '/')) hslash]
      exact hc
  · exact h

theorem startsWithLetter_tidy {t : Text} (h : Text.startsWithLetter t = true) :
    Text.startsWithLetter (tidy t) = true := by
  have hstrip : Text.startsWithLetter (Text.strip (dropComment t)) = true :=
    Text.startsWithLetter_trimBy (fun c => Text.isPadding_eq_false_of_isAlpha)
      (startsWithLetter_dropComment h)
  unfold tidy
  rw [closeList_eq]
  split
  · exact LineKind.startsWithLetter_of_front hstrip (List.prefix_append _ _)
  · exact hstrip

/-! ### Texts that are tidy -/

/-- There is nothing to take away from a text, and no list to close in it. -/
structure Settled (m : Text) : Prop where
  /-- No comment is behind it. -/
  commentMark_not_infix : ¬ commentMark <:+: m
  /-- Neither a space nor a semicolon is at its ends. -/
  endsClear : Text.EndsClear Text.isPadding m
  /-- No list is open at its end. -/
  last_ne : m.getLast? ≠ some '['

theorem head?_closeList (t : Text) : (closeList t).head? = t.head? := by
  rw [closeList_eq]
  split
  · next hlast =>
    -- A text that leaves a list open is not empty, so the mark comes behind its first character.
    have hne : t ≠ [] := by
      rintro rfl
      cases hlast
    exact List.head?_append_of_ne_nil t hne
  · rfl

theorem settled_tidy (t : Text) : Settled (tidy t) where
  commentMark_not_infix := commentMark_not_infix_tidy t
  endsClear := by
    refine ⟨?_, fun c hc => (last_tidy t c hc).2⟩
    intro c hc
    rw [tidy, head?_closeList] at hc
    exact (Text.endsClear_trimBy _ _).head c hc
  last_ne := fun hlast => (last_tidy t '[' hlast).1 rfl

/-- The settled texts are those that tidying leaves as they are. -/
theorem tidy_eq_self_iff {m : Text} : tidy m = m ↔ Settled m := by
  constructor
  · intro h
    rw [← h]
    exact settled_tidy m
  · intro h
    calc tidy m = closeList (Text.strip m) := tidy_of_uncommented h.commentMark_not_infix
      _ = closeList m := congrArg closeList (Text.trimBy_of_endsClear h.endsClear)
      _ = m := by rw [closeList_eq, if_neg h.last_ne]

/-! ### What is taken away -/

/-- `part` is cut out of `t`, where `front` and `back` are around it and `comment` is last. -/
structure CutOut (t front part back comment : Text) : Prop where
  /-- The parts of the text. -/
  eq : t = front ++ part ++ back ++ comment
  /-- In front there are only white space and semicolons. -/
  front_loose : ∀ c ∈ front, Text.isBlank c = true ∨ c = ';'
  /-- Behind there is nothing else, up to the comment. -/
  back_loose : ∀ c ∈ back, Text.isBlank c = true ∨ c = ';'
  /-- Without the mark there is no comment. -/
  comment_eq_nil : ¬ commentMark <:+: t → comment = []
  /-- With the mark, the comment is all from the first slash on. -/
  comment_slash : commentMark <:+: t → '/' ∉ part ∧ ['/'] <+: comment

theorem exists_cutOut_dropComment (t : Text) :
    ∃ front back comment, CutOut t front (dropComment t) back comment := by
  by_cases hmark : commentMark <:+: t
  · -- The mark has slashes, so there is a first one to cut at.
    have hslash : '/' ∈ t := hmark.subset (by decide)
    obtain ⟨rest, hrest⟩ := Text.exists_eq_beforeChar_append hslash
    obtain ⟨front, back, hfront, hback, htrim⟩ :=
      Text.exists_eq_append_trimBy Text.isBlank (Text.beforeChar '/' t)
    have hcut : t = front ++ dropComment t ++ back ++ '/' :: rest := by
      calc t = Text.beforeChar '/' t ++ '/' :: rest := hrest
        _ = front ++ Text.trim (Text.beforeChar '/' t) ++ back ++ '/' :: rest :=
          congrArg (· ++ '/' :: rest) htrim
        _ = front ++ dropComment t ++ back ++ '/' :: rest := by
          rw [dropComment_of_commented hmark]
    exact ⟨front, back, '/' :: rest, hcut, fun c hc => Or.inl (hfront c hc),
      fun c hc => Or.inl (hback c hc), fun h => absurd hmark h,
      fun _ => ⟨slash_not_mem_dropComment hmark, ⟨rest, rfl⟩⟩⟩
  · rw [dropComment_of_uncommented hmark]
    exact ⟨[], [], [], by simp, by simp, by simp, fun _ => rfl, fun h => absurd h hmark⟩

/-- Stripping moves spaces and semicolons from the part to what is around it. -/
theorem CutOut.strip {t front part back comment : Text} (h : CutOut t front part back comment) :
    ∃ front' back', CutOut t front' (Text.strip part) back' comment := by
  obtain ⟨before, behind, hbefore, hbehind, hpart⟩ :=
    Text.exists_eq_append_trimBy Text.isPadding part
  refine ⟨front ++ before, behind ++ back, ?_, ?_, ?_, h.comment_eq_nil, ?_⟩
  · calc t = front ++ part ++ back ++ comment := h.eq
      _ = front ++ (before ++ Text.strip part ++ behind) ++ back ++ comment :=
        congrArg (front ++ · ++ back ++ comment) hpart
      _ = front ++ before ++ Text.strip part ++ (behind ++ back) ++ comment := by
        simp only [List.append_assoc]
  · intro c hc
    rcases List.mem_append.1 hc with hc | hc
    · exact h.front_loose c hc
    · exact Text.isBlank_of_isPadding (hbefore c hc)
  · intro c hc
    rcases List.mem_append.1 hc with hc | hc
    · exact Text.isBlank_of_isPadding (hbehind c hc)
    · exact h.back_loose c hc
  · intro hmark
    obtain ⟨hslash, hcomment⟩ := h.comment_slash hmark
    exact ⟨fun hmem => hslash ((Text.trimBy_isInfix _ _).subset hmem), hcomment⟩

/-- Tidying takes away what is at the ends, and puts a mark behind a list that is then open. -/
theorem exists_cutOut_tidy (t : Text) :
    ∃ front part back comment, CutOut t front part back comment ∧
      (tidy t = part ∨ ['['] <:+ part ∧ tidy t = part ++ openListMark) := by
  obtain ⟨front, back, comment, hdrop⟩ := exists_cutOut_dropComment t
  obtain ⟨front', back', hstrip⟩ := hdrop.strip
  refine ⟨front', _, back', comment, hstrip, ?_⟩
  unfold tidy closeList
  split
  · next hopen => exact Or.inr ⟨List.isSuffixOf_iff_suffix.1 hopen, rfl⟩
  · exact Or.inl rfl

/-- A member that has been tidied once is settled: tidying it again changes nothing.  It is a
contiguous part of the text, with the list mark behind it if the part ends in a bracket, and only
white space, semicolons and the comment are missing.  It has neither space nor semicolon at its
ends, no bracket left open at its end, and no comment mark. -/
theorem tidy_settles (t : Text) :
    tidy (tidy t) = tidy t ∧
    (∃ front part back comment, CutOut t front part back comment ∧
      (tidy t = part ∨ ['['] <:+ part ∧ tidy t = part ++ openListMark)) ∧
    (∀ c ∈ (tidy t).head?, c ≠ ' ' ∧ c ≠ ';') ∧
    (∀ c ∈ (tidy t).getLast?, c ≠ ' ' ∧ c ≠ ';' ∧ c ≠ '[') ∧
    ¬ commentMark <:+: tidy t := by
  have hsettled := settled_tidy t
  refine ⟨tidy_eq_self_iff.2 hsettled, exists_cutOut_tidy t, ?_, ?_,
    hsettled.commentMark_not_infix⟩
  · intro c hc
    exact Text.isPadding_eq_false_iff.1 (hsettled.endsClear.head c hc)
  · intro c hc
    obtain ⟨hspace, hsemicolon⟩ := Text.isPadding_eq_false_iff.1 (hsettled.endsClear.last c hc)
    refine ⟨hspace, hsemicolon, ?_⟩
    rintro rfl
    exact hsettled.last_ne hc

/-- Semicolons and a tab at the ends, a list left open in front of the comment, and a slash in the
comment itself. -/
theorem tidy_settles_open_list :
    tidy "\t;const A = [ ; // 1/2;".toList = "const A = [...]".toList ∧
    tidy "const A = [...]".toList = "const A = [...]".toList ∧
    ('c' ≠ ' ' ∧ 'c' ≠ ';') ∧ (']' ≠ ' ' ∧ ']' ≠ ';' ∧ ']' ≠ '[') ∧
    ¬ commentMark <:+: "const A = [...]".toList := by
  have htidy : tidy "\t;const A = [ ; // 1/2;".toList = "const A = [...]".toList := by
    decide +kernel
  obtain ⟨hagain, -, hhead, hlast, hmark⟩ := tidy_settles "\t;const A = [ ; // 1/2;".toList
  rw [htidy] at hagain hhead hlast hmark
  exact ⟨htidy, hagain, hhead 'c' (by decide), hlast ']' (by decide), hmark⟩

/-! ### The scan -/

/-- What holds of every text that is reported as a member. -/
structure WellFormed (m : Text) : Prop where
  /-- It starts with a letter. -/
  letter : Text.startsWithLetter m = true
  /-- It calls nothing and has no parameters. -/
  parenthesis_not_mem : '(' ∉ m
  /-- It is part of a single line. -/
  newline_not_mem : '\n' ∉ m
  /-- No comment is behind it. -/
  commentMark_not_infix : ¬ commentMark <:+: m
  /-- At its end there is neither an open list nor a space or semicolon. -/
  last : ∀ c ∈ m.getLast?, c ≠ '[' ∧ c ≠ ' ' ∧ c ≠ ';'

theorem wellFormed_tidy {t : Text} (hletter : Text.startsWithLetter t = true) (hparen : '(' ∉ t)
    (hnewline : '\n' ∉ t) : WellFormed (tidy t) where
  letter := startsWithLetter_tidy hletter
  parenthesis_not_mem := fun h => (mem_of_mem_tidy h).elim (by decide) hparen
  newline_not_mem := fun h => (mem_of_mem_tidy h).elim (by decide) hnewline
  commentMark_not_infix := commentMark_not_infix_tidy t
  last := by
    intro c hc
    obtain ⟨hlist, hpadding⟩ := last_tidy t c hc
    exact ⟨hlist, Text.isPadding_eq_false_iff.1 hpadding⟩

/-- Whatever is collected from lines of a file is well formed. -/
theorem wellFormed_of_mem_collect {source : Text} {ls : List Line}
    (hls : ∀ l ∈ ls, l ∈ classify source) {stage : Stage} {m : Text} (h : m ∈ collect stage ls) :
    WellFormed m := by
  obtain ⟨l, hl, hparen, hword, rfl⟩ := exists_of_mem_collect h
  obtain ⟨raw, -, rfl⟩ := List.mem_map.1 (hls l hl)
  apply wellFormed_tidy
  · rwa [Line.kind_ofRaw, LineKind.isWordLed_ofText] at hword
  · simpa [Line.hasParenthesis] using hparen
  · exact newline_not_mem_text (hls _ hl)

/-- A member that reads like a function ends the scan. -/
theorem Stage.next_of_member_function {stage : Stage} {l : Line} {m : Text}
    (h : stage.member? l = some m) (hfun : Text.occursIn functionMark m = true) :
    stage.next l = .ended := by
  obtain ⟨⟨hended, hbody, hparen, hword⟩, rfl⟩ := Stage.member?_eq_some_iff.1 h
  unfold next
  rw [if_neg (by simpa using hended), hbody, hparen, hword, hfun]
  rfl

/-- A run collects at most one member that reads like a function. -/
theorem countP_function_collect_le (stage : Stage) (ls : List Line) :
    (collect stage ls).countP (Text.occursIn functionMark) ≤ 1 := by
  induction ls generalizing stage with
  | nil => exact Nat.zero_le 1
  | cons l ls ih =>
    rw [collect, List.countP_append]
    cases hmember : stage.member? l with
    | none =>
      rw [Option.toList_none, List.countP_nil, Nat.zero_add]
      exact ih _
    | some m =>
      rw [Option.toList_some, List.countP_singleton]
      by_cases hfun : Text.occursIn functionMark m = true
      · -- Nothing is collected behind this line.
        rw [Stage.next_of_member_function hmember hfun, collect_ended, if_pos hfun]
        exact Nat.le_refl 1
      · have hrest := ih (stage.next l)
        rw [if_neg hfun]
        omega

/-! ### Sorting -/

section Sorting
variable {ms : List Text} {m : Text}

theorem mem_constants_sorted_iff :
    m ∈ (sorted ms).constants ↔ m ∈ ms ∧ "const ".toList <:+: m := by
  show m ∈ ms.filter isConstant ↔ _
  rw [List.mem_filter, isConstant, Text.occursIn_iff]

theorem mem_cases_sorted_iff :
    m ∈ (sorted ms).cases ↔ m ∈ ms ∧ "case ".toList <:+: m ∧ ¬ "const ".toList <:+: m := by
  show m ∈ ms.filter isCase ↔ _
  rw [List.mem_filter, isCase, isConstant, Bool.and_eq_true, Bool.not_eq_true', ← Bool.not_eq_true,
    Text.occursIn_iff, Text.occursIn_iff, and_comm (a := ¬ _)]

theorem mem_properties_sorted_iff :
    m ∈ (sorted ms).properties ↔
      m ∈ ms ∧ ¬ "const ".toList <:+: m ∧ ¬ "case ".toList <:+: m := by
  show m ∈ ms.filter (fun m => !isConstant m && !isCase m) ↔ _
  rw [List.mem_filter, ← Text.occursIn_iff, ← Text.occursIn_iff, isCase, isConstant]
  -- A text that is no constant is a case as soon as it has the word.
  cases Text.occursIn "const ".toList m <;> cases Text.occursIn "case ".toList m <;> simp

end Sorting

end Members

namespace Facts

open Members in
/-- Every reported member starts with a letter, holds no parenthesis, newline or comment mark, and
ends in neither a bracket left open nor a space or semicolon.  The words `const` and `case` tell
which of the lists it is in, and at most one member of the file reads like a function. -/
theorem members_wellFormed (source : Text) :
    (∀ m ∈ (ofSource source).members.constants, WellFormed m ∧ "const ".toList <:+: m) ∧
    (∀ m ∈ (ofSource source).members.cases,
      WellFormed m ∧ "case ".toList <:+: m ∧ ¬ "const ".toList <:+: m) ∧
    (∀ m ∈ (ofSource source).members.properties,
      WellFormed m ∧ ¬ "const ".toList <:+: m ∧ ¬ "case ".toList <:+: m) ∧
    (ofSource source).members.texts.countP (Text.occursIn functionMark) ≤ 1 := by
  have hscan : (ofSource source).members = scan (structural (classify source)) := rfl
  rw [hscan]
  have hcount := countP_function_collect_le .ahead (structural (classify source))
  rw [← (texts_scan_perm _).countP_eq] at hcount
  rw [scan_eq_sorted] at hcount ⊢
  have hwell : ∀ m ∈ collect .ahead (structural (classify source)), WellFormed m := fun m =>
    wellFormed_of_mem_collect fun l => mem_of_mem_structural
  refine ⟨?_, ?_, ?_, hcount⟩
  · intro m hm
    obtain ⟨hm, hwords⟩ := mem_constants_sorted_iff.1 hm
    exact ⟨hwell m hm, hwords⟩
  · intro m hm
    obtain ⟨hm, hwords⟩ := mem_cases_sorted_iff.1 hm
    exact ⟨hwell m hm, hwords⟩
  · intro m hm
    obtain ⟨hm, hwords⟩ := mem_properties_sorted_iff.1 hm
    exact ⟨hwell m hm, hwords⟩

/-- A constant whose list is open behind its comment, a case, a property, and a function without
its parameters, which is the last one. -/
theorem members_wellFormed_open_list :
    (ofSource ("enum E\n\x7b\n  const A = [ // more\n    1,\n  case B;\n".toList ++
        "  public $c ; // last\n  static function d\n  public $e;\n\x7d\n".toList)).members =
      { constants := ["const A = [...]".toList]
        cases := ["case B".toList]
        properties := ["public $c".toList, "static function d".toList] } ∧
    Members.WellFormed "const A = [...]".toList ∧ Members.WellFormed "case B".toList ∧
    Members.WellFormed "public $c".toList ∧ Members.WellFormed "static function d".toList := by
  obtain ⟨hconst, hcase, hproperty, -⟩ := members_wellFormed
    ("enum E\n\x7b\n  const A = [ // more\n    1,\n  case B;\n".toList ++
      "  public $c ; // last\n  static function d\n  public $e;\n\x7d\n".toList)
  refine (and_iff_left_of_imp fun hmembers => ?_).2 (by decide +kernel)
  rw [hmembers] at hconst hcase hproperty
  exact ⟨(hconst _ (by simp)).1, (hcase _ (by simp)).1, (hproperty _ (by simp)).1,
    (hproperty _ (by simp)).1⟩

end Facts

end DeclSurvey
