import DeclSurvey.Proofs.Structure

/-! # Comments behind members

A comment behind a member is cut off before the member is reported, but only after the line has
been looked at as a whole.  This file says exactly which comments are inert.

* `indented_commented`: the text of the commented line is the old one with the comment behind it;
* `tidy_commentedText`, `tidy_commentedText_ne`: the cut is at the first slash of the line, so that
  it finds the comment only if the member has no slash;
* `parenthesis_mem_commentedText_iff`: a parenthesis in the comment is one in the line;
* `opening_prefix_commentedText_iff`: the space in front of the comment may complete an opening;
* `scan_commented_eq_iff` and `tally_commented_eq`: what this does to the scan and the tally.

The parenthesis, the slash and the opening are the only ways in which a comment matters. -/

namespace DeclSurvey

namespace Members

/-! ### The text of the line -/

/-- A line with a comment behind it. -/
def commented (x comment : Text) : Text :=
  x ++ " // ".toList ++ comment

/-- The cleaned text of the commented line, from that of the line and the blanks behind it. -/
def commentedText (text back comment : Text) : Text :=
  text ++ back ++ " //".toList ++ Text.trimEndBy Text.isBlank (' ' :: comment)

theorem prefix_commentedText (text back comment : Text) :
    text <+: commentedText text back comment := by
  unfold commentedText
  rw [List.append_assoc, List.append_assoc]
  exact List.prefix_append _ _

theorem exists_eq_trimEndBy_append (comment : Text) :
    ∃ blanks, (∀ c ∈ blanks, Text.isBlank c = true) ∧
      ' ' :: comment = Text.trimEndBy Text.isBlank (' ' :: comment) ++ blanks := by
  refine ⟨(' ' :: comment).rtakeWhile Text.isBlank, fun c hc => List.mem_rtakeWhile_imp hc, ?_⟩
  exact (List.rdropWhile_append_rtakeWhile (p := Text.isBlank)).symm

theorem indented_commented {x indent text back : Text} (h : Line.Indented x indent text back)
    (comment : Text) :
    ∃ blanks, Line.Indented (commented x comment) indent (commentedText text back comment)
      blanks := by
  obtain ⟨blanks, hblanks, hcomment⟩ := exists_eq_trimEndBy_append comment
  refine ⟨blanks, ?_, h.indent_ne_nil, h.indent_blank, hblanks, ?_, ?_⟩
  · calc commented x comment = x ++ " //".toList ++ (' ' :: comment) := by simp [commented]
      _ = x ++ " //".toList ++ (Text.trimEndBy Text.isBlank (' ' :: comment) ++ blanks) :=
        congrArg _ hcomment
      _ = indent ++ commentedText text back comment ++ blanks := by simp [commentedText, h.eq]
  · exact LineKind.startsWithLetter_of_front h.letter (prefix_commentedText text back comment)
  · intro c hc
    unfold commentedText at hc
    rw [List.getLast?_append] at hc
    by_cases hnil : Text.trimEndBy Text.isBlank (' ' :: comment) = []
    · -- Nothing but blanks in the comment: the text ends with the slashes.
      rw [hnil, List.getLast?_append] at hc
      have hc : '/' = c := Option.some.inj hc
      rw [← hc]
      decide
    · rw [List.getLast?_eq_some_getLast hnil] at hc
      have hc := Option.some.inj hc
      rw [← hc]
      exact Bool.eq_false_iff.2 (List.rdropWhile_last_not Text.isBlank _ hnil)

/-! ### What the comment brings in -/

section CommentedText
variable {text back : Text}

theorem parenthesis_mem_commentedText_iff (hback : ∀ c ∈ back, Text.isBlank c = true)
    (comment : Text) :
    '(' ∈ commentedText text back comment ↔ '(' ∈ text ∨ '(' ∈ comment := by
  have hparen : Text.isBlank '(' = false := by decide
  have hend : '(' ∈ Text.trimEndBy Text.isBlank (' ' :: comment) ↔ '(' ∈ comment := by
    obtain ⟨blanks, hblanks, hcomment⟩ := exists_eq_trimEndBy_append comment
    have hnot : '(' ∉ blanks := Text.not_mem_of_class hparen hblanks
    have hmem : '(' ∈ ' ' :: comment ↔ '(' ∈ comment := by simp
    rw [← hmem]
    conv_rhs => rw [hcomment]
    rw [List.mem_append, or_iff_left hnot]
  unfold commentedText
  rw [List.mem_append, List.mem_append, List.mem_append, hend]
  have hnot : '(' ∉ back := Text.not_mem_of_class hparen hback
  have hslash : '(' ∉ " //".toList := by decide
  simp only [hnot, hslash, or_false]

theorem commentMark_infix_commentedText (comment : Text) :
    commentMark <:+: commentedText text back comment :=
  ⟨text ++ back, Text.trimEndBy Text.isBlank (' ' :: comment), rfl⟩

theorem commentedText_eq_append (text back comment : Text) : commentedText text back comment =
    (text ++ back ++ [' ']) ++ '/' :: '/' :: Text.trimEndBy Text.isBlank (' ' :: comment) := by
  simp [commentedText]

theorem tidy_commentedText_eq (comment : Text) : tidy (commentedText text back comment) =
    closeList (Text.strip (Text.trim (Text.beforeChar '/' (commentedText text back comment)))) := by
  rw [tidy, dropComment_of_commented (commentMark_infix_commentedText comment)]

/-- Without a slash in the member, the cut is where the comment starts. -/
theorem tidy_commentedText (hback : ∀ c ∈ back, Text.isBlank c = true)
    (hclear : Text.EndsClear Text.isBlank text) (hslash : '/' ∉ text)
    (hmark : ¬ commentMark <:+: text) (comment : Text) :
    tidy (commentedText text back comment) = tidy text := by
  have hnot : '/' ∉ back := Text.not_mem_of_class (by decide) hback
  have hbefore : Text.beforeChar '/' (commentedText text back comment) = text ++ back ++ [' '] := by
    rw [commentedText_eq_append]
    exact Text.beforeChar_append_cons (by simp [hslash, hnot]) _
  have htrim : Text.trim (text ++ back ++ [' ']) = text := by
    have hblank : ∀ c ∈ back ++ [' '], Text.isBlank c = true := by
      intro c hc
      rcases List.mem_append.1 hc with hc | hc
      · exact hback c hc
      · rw [List.mem_singleton.1 hc]
        decide
    rw [List.append_assoc]
    exact Text.trimBy_append_append hclear [] (back ++ [' ']) (by simp) hblank
  rw [tidy_commentedText_eq, hbefore, htrim, tidy_of_uncommented hmark]

theorem slash_mem_closeList {t : Text} : '/' ∈ closeList t ↔ '/' ∈ t := by
  have hlist : '/' ∉ openListMark := by decide
  unfold closeList
  split
  · rw [List.mem_append, or_iff_left hlist]
  · exact Iff.rfl

/-- A slash in the member is cut off with the comment. -/
theorem tidy_commentedText_ne (hslash : '/' ∈ text) (hmark : ¬ commentMark <:+: text)
    (comment : Text) : tidy (commentedText text back comment) ≠ tidy text := by
  have hkept : '/' ∈ tidy text := by
    rw [tidy_of_uncommented hmark, slash_mem_closeList]
    exact (Text.mem_trimBy_iff (by decide) text).2 hslash
  have hcut : '/' ∉ tidy (commentedText text back comment) := by
    rw [tidy, slash_mem_closeList]
    intro hmem
    exact slash_not_mem_dropComment (commentMark_infix_commentedText comment)
      ((Text.trimBy_isInfix _ _).subset hmem)
  intro heq
  exact hcut (heq ▸ hkept)

/-- An opening has no slash, so it ends before the comment. -/
theorem opening_prefix_commentedText_iff (s : Signature) (comment : Text) :
    s.opening <+: commentedText text back comment ↔ s.opening <+: text ++ back ++ [' '] := by
  have hslash : '/' ∉ s.opening := by cases s <;> decide
  rw [commentedText_eq_append]
  constructor
  · intro h
    rcases List.prefix_or_prefix_of_prefix h (List.prefix_append _ _) with h' | ⟨u, hu⟩
    · exact h'
    · -- The opening would reach into the slashes.
      rw [← hu, List.prefix_append_right_inj] at h
      cases u with
      | nil =>
        rw [List.append_nil] at hu
        exact hu ▸ List.prefix_rfl
      | cons c u =>
        have hc : c = '/' := (List.cons_prefix_cons.1 h).1
        exact absurd (by simp [← hu, hc]) hslash
  · intro h
    exact h.trans (List.prefix_append _ _)

/-- A member that reads like a function has the word in its line. -/
theorem functionMark_infix_of_tidy {t : Text} (hmark : ¬ commentMark <:+: t)
    (h : functionMark <:+: tidy t) : functionMark <:+: t := by
  rw [tidy_of_uncommented hmark] at h
  have hstrip : functionMark <:+: Text.strip t :=
    infix_of_infix_closeList (by decide) (Text.disjoint_of_all (by decide)) h
  exact hstrip.trans (Text.trimBy_isInfix _ t)

end CommentedText

/-! ### The line in the scan -/

section Scan
variable {x indent text back : Text}

theorem slash_mem_iff (h : Line.Indented x indent text back) : '/' ∈ x ↔ '/' ∈ text := by
  have hindent : '/' ∉ indent := Text.not_mem_of_class (by decide) h.indent_blank
  have hback : '/' ∉ back := Text.not_mem_of_class (by decide) h.back_blank
  rw [h.eq, List.mem_append, List.mem_append, or_iff_left hback, or_iff_right hindent]

/-- Inside the body, a comment behind a member is inert if it holds no parenthesis and the member
no slash. -/
theorem scan_commented_eq_iff {pre post : List Line} {comment : Text}
    (h : Line.Indented x indent text back) (hin : Stage.ahead.run pre = .inside)
    (hparen : '(' ∉ text) (hmark : ¬ commentMark <:+: text) :
    scan (pre ++ Line.ofRaw (commented x comment) :: post) = scan (pre ++ Line.ofRaw x :: post) ↔
      '(' ∉ comment ∧ '/' ∉ x := by
  obtain ⟨blanks, h'⟩ := indented_commented h comment
  have hmember : Stage.inside.member? (Line.ofRaw x) = some (tidy text) := by
    rw [member?_indented h, if_neg hparen]
  have hnext : Stage.inside.next (Line.ofRaw x) =
      if Text.occursIn functionMark (tidy text) then .ended else .inside := by
    rw [next_indented h, if_neg hparen]
  have hmem : '(' ∈ commentedText text back comment ↔ '(' ∈ comment := by
    rw [parenthesis_mem_commentedText_iff h.back_blank, or_iff_right hparen]
  rw [slash_mem_iff h]
  by_cases hopen : '(' ∈ comment
  · -- The line is passed over, and if the member was the last one, it still is.
    refine iff_of_false ?_ (fun hand => hand.1 hopen)
    have hdropped : Stage.inside.member? (Line.ofRaw (commented x comment)) = none := by
      rw [member?_indented h', if_pos (hmem.2 hopen)]
    refine scan_ne_of_member_dropped hin hmember hdropped ?_
    intro hended
    rw [hnext, ite_eq_left_iff] at hended
    have hfun : Text.occursIn functionMark (tidy text) = true := by
      by_contra hnot
      cases hended hnot
    have hocc : functionMark <:+: commentedText text back comment := by
      exact (functionMark_infix_of_tidy hmark (Text.occursIn_iff.1 hfun)).trans
        (prefix_commentedText text back comment).isInfix
    rw [next_indented h', if_pos (hmem.2 hopen),
      if_pos (Text.occursIn_iff.2 hocc)]
  · have hclosed : '(' ∉ commentedText text back comment := fun hmem' => hopen (hmem.1 hmem')
    have hmember' : Stage.inside.member? (Line.ofRaw (commented x comment)) =
        some (tidy (commentedText text back comment)) := by
      rw [member?_indented h', if_neg hclosed]
    by_cases hslash : '/' ∈ text
    · -- The member is cut short.
      refine iff_of_false ?_ (fun hand => hand.2 hslash)
      exact scan_ne_of_member_ne hin hmember hmember' (tidy_commentedText_ne hslash hmark comment)
    · -- The member is the same, so the line does what it did.
      refine iff_of_true ?_ ⟨hopen, hslash⟩
      have htidy := tidy_commentedText h.back_blank h.endsClear hslash hmark comment
      refine scan_eq_of_line_eq hin ?_ ?_
      · rw [hmember, hmember', htidy]
      · rw [hnext, next_indented h', if_neg hclosed, htidy]

end Scan

end Members

namespace Facts

/-! ### The line in the file -/

/-- A space behind the line makes an opening of it. -/
def OpensWithSpace (x : Text) : Prop :=
  ∃ s : Signature, s.opening <+: x.dropWhile Text.isBlank ++ [' '] ∧ ¬ s.opening <+: Line.clean x

/-- The line `x` is collected as a member when it follows the text `a`. -/
def IsMemberLine (a x : Text) : Prop :=
  Members.scan (written (classify a) ++ [Line.ofRaw x]) ≠ Members.scan (written (classify a))

section Tally
variable {x indent text back comment : Text} {pre post : List Line}

theorem opens_indented (h : Line.Indented x indent text back) (s : Signature) :
    Tally.opens s (Line.ofRaw x) = true ↔ s.opening <+: text := by
  rw [Tally.opens_ofRaw, h.clean_eq, List.isPrefixOf_iff_prefix]

theorem opens_commented (h : Line.Indented x indent text back) (s : Signature) :
    Tally.opens s (Line.ofRaw (Members.commented x comment)) = true ↔
      s.opening <+: text ++ back ++ [' '] := by
  obtain ⟨blanks, h'⟩ := Members.indented_commented h comment
  rw [opens_indented h', Members.opening_prefix_commentedText_iff]

theorem opensWithSpace_iff (h : Line.Indented x indent text back) :
    OpensWithSpace x ↔
      ∃ s : Signature, s.opening <+: text ++ back ++ [' '] ∧ ¬ s.opening <+: text := by
  unfold OpensWithSpace
  rw [h.dropWhile_eq, h.clean_eq]

theorem tally_commented_eq (h : Line.Indented x indent text back) (hspace : ¬ OpensWithSpace x) :
    Tally.ofLines (pre ++ Line.ofRaw (Members.commented x comment) :: post) =
      Tally.ofLines (pre ++ Line.ofRaw x :: post) := by
  rw [opensWithSpace_iff h] at hspace
  refine Tally.eq_of_count_eq (Tally.ordered_ofLines _) (Tally.ordered_ofLines _) ?_
  intro s
  have hopens : Tally.opens s (Line.ofRaw (Members.commented x comment)) =
      Tally.opens s (Line.ofRaw x) := by
    rw [Bool.eq_iff_iff, opens_commented h, opens_indented h]
    constructor
    · intro hs
      by_contra hnot
      exact hspace ⟨s, hs, hnot⟩
    · intro hs
      rw [List.append_assoc]
      exact hs.trans (List.prefix_append _ _)
  rw [Tally.count_ofLines, Tally.count_ofLines, List.countP_append, List.countP_append,
    List.countP_cons, List.countP_cons, hopens]

/-- A line that opens nothing by itself adds a declaration once it has a comment. -/
theorem isAtypical_commented (h : Line.Indented x indent text back) (hspace : OpensWithSpace x)
    (htypical : (Tally.ofLines (pre ++ Line.ofRaw x :: post)).isAtypical = false) :
    (Tally.ofLines (pre ++ Line.ofRaw (Members.commented x comment) :: post)).isAtypical =
      true := by
  obtain ⟨s, hs, hnot⟩ := (opensWithSpace_iff h).1 hspace
  -- Without the space the line opens nothing: another opening would be the same one.
  have hclosed : ¬ Tally.opensAny (Line.ofRaw x) = true := by
    rw [Tally.opensAny_iff]
    intro hany
    obtain ⟨r, hr⟩ := hany
    have hr : r.opening <+: text := (opens_indented h r).1 (Tally.opens_iff.2 hr)
    have hr' : r.opening <+: text ++ back ++ [' '] := by
      rw [List.append_assoc]
      exact hr.trans (List.prefix_append _ _)
    rw [Signature.opening_prefix_unique hs hr'] at hnot
    exact hnot hr
  have hopen : Tally.opensAny (Line.ofRaw (Members.commented x comment)) = true :=
    Tally.opensAny_iff.2 ⟨s, Tally.opens_iff.1 ((opens_commented h s).2 hs)⟩
  have hone : Tally.total (Tally.ofLines (pre ++ Line.ofRaw x :: post)) = 1 := by
    by_contra hne
    rw [(Tally.isAtypical_iff (Tally.ordered_ofLines _)).2 hne] at htypical
    cases htypical
  rw [Tally.isAtypical_iff (Tally.ordered_ofLines _)]
  rw [Tally.total_ofLines, List.countP_append, List.countP_cons] at hone ⊢
  rw [if_neg hclosed] at hone
  rw [if_pos hopen]
  omega

end Tally

/-- A comment behind a member is inert exactly if it holds no parenthesis, the member no slash,
and the space in front of it completes no opening of a declaration. -/
theorem members_commented_eq_iff (a x b rest comment : Text) (ha : Text.EndsLine a)
    (hx : '\n' ∉ x) (hb : LineEnd b rest) (hcomment : '\n' ∉ comment)
    (hindent : Text.startsWithLetter x = false) (hmark : ¬ Members.commentMark <:+: x)
    (htypical : (ofSource (a ++ x ++ b)).isAtypical = false) (hmember : IsMemberLine a x) :
    (ofSource (a ++ Members.commented x comment ++ b)).members = (ofSource (a ++ x ++ b)).members ↔
      '(' ∉ comment ∧ '/' ∉ x ∧ ¬ OpensWithSpace x := by
  obtain ⟨hin, hparen, hword⟩ := Members.inside_of_scan_ne hmember
  have hletter : Text.startsWithLetter (Line.clean x) = true := by
    rwa [Line.kind_ofRaw, LineKind.isWordLed_ofText] at hword
  obtain ⟨indent, back, h⟩ := Line.exists_indented hindent hletter
  obtain ⟨blanks, h'⟩ := Members.indented_commented h comment
  have hparen : '(' ∉ Line.clean x := by simpa [Line.hasParenthesis] using hparen
  have hmark : ¬ Members.commentMark <:+: Line.clean x := fun hocc =>
    hmark (hocc.trans ⟨indent, back, h.eq.symm⟩)
  -- Both texts have the same lines around the one that is commented.
  have hlines : classify (a ++ x ++ b) = classify a ++ Line.ofRaw x :: classify rest :=
    classify_append_line ha hx h.ne_nil hb
  have hlines' : classify (a ++ Members.commented x comment ++ b) =
      classify a ++ Line.ofRaw (Members.commented x comment) :: classify rest := by
    refine classify_append_line ha ?_ h'.ne_nil hb
    simp [Members.commented, hx, hcomment]
  have hscan : (ofSource (a ++ x ++ b)).members = Members.scan
      (written (classify a) ++ Line.ofRaw x :: written (classify rest)) := by
    rw [members_of_typical htypical, hlines, written_append_cons h.kind_ne_blank]
  have htypical : (Tally.ofLines (classify a ++ Line.ofRaw x :: classify rest)).isAtypical =
      false := by
    rw [← hlines]
    exact htypical
  by_cases hspace : OpensWithSpace x
  · -- The file becomes atypical and loses all its members.
    refine iff_of_false ?_ (fun hand => hand.2.2 hspace)
    have hatypical : (ofSource (a ++ Members.commented x comment ++ b)).isAtypical = true := by
      show (Tally.ofLines (classify (a ++ Members.commented x comment ++ b))).isAtypical = true
      rw [hlines']
      exact isAtypical_commented h hspace htypical
    rw [members_of_isAtypical hatypical, hscan, Members.scan_append_cons hin,
      Members.member?_indented h, if_neg hparen]
    intro heq
    have hlen := (Members.perm_of_sorted_eq heq).length_eq
    simp at hlen
  · -- The file stays typical, and what happens is up to the scan.
    have htypical' : (ofSource (a ++ Members.commented x comment ++ b)).isAtypical = false := by
      show (Tally.ofLines (classify (a ++ Members.commented x comment ++ b))).isAtypical = false
      rw [hlines', tally_commented_eq h hspace]
      exact htypical
    rw [members_of_typical htypical', hlines', written_append_cons h'.kind_ne_blank, hscan,
      Members.scan_commented_eq_iff h hin hparen hmark, and_iff_left hspace]

/-- A comment behind a constant that is inert. -/
theorem members_commented_constant :
    (ofSource ("class A\n\x7b\n".toList ++
        Members.commented "    const B = 1;".toList "the first one".toList ++
        "\n    const C = 2;\n".toList)).members =
      (ofSource ("class A\n\x7b\n".toList ++ "    const B = 1;".toList ++
        "\n    const C = 2;\n".toList)).members := by
  refine (members_commented_eq_iff _ _ _ "    const C = 2;\n".toList _
    (Or.inr ⟨"class A\n\x7b".toList, rfl⟩) (by decide) (LineEnd.newline _) (by decide) (by decide)
    (by rw [← Text.occursIn_iff]; decide) (by decide +kernel)
    (by unfold IsMemberLine; decide +kernel)).2
    ⟨by decide, by decide, ?_⟩
  intro hspace
  obtain ⟨s, hs, -⟩ := hspace
  rw [← List.isPrefixOf_iff_prefix] at hs
  cases s <;> revert hs <;> decide

/-- A comment with a parenthesis hides the constant that it stands behind. -/
theorem not_all_comments_inert :
    ¬ ∀ a x b rest comment : Text, Text.EndsLine a → '\n' ∉ x → LineEnd b rest → '\n' ∉ comment →
      Text.startsWithLetter x = false → ¬ Members.commentMark <:+: x →
      (ofSource (a ++ x ++ b)).isAtypical = false → IsMemberLine a x →
      (ofSource (a ++ Members.commented x comment ++ b)).members =
        (ofSource (a ++ x ++ b)).members := by
  intro h
  have hinert := h "class A\n\x7b\n".toList "    const B = 1;".toList
    "\n    const C = 2;\n".toList "    const C = 2;\n".toList "the first (of two)".toList
    (Or.inr ⟨"class A\n\x7b".toList, rfl⟩) (by decide) (LineEnd.newline _) (by decide) (by decide)
    (by rw [← Text.occursIn_iff]; decide) (by decide +kernel)
    (by unfold IsMemberLine; decide +kernel)
  revert hinert
  decide +kernel

end Facts

end DeclSurvey
