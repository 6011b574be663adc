import DeclSurvey.Proofs.Spacing

/-! # Spaces in a declaration line

A line is tidied by one pass that puts one space for each two.  So a run of spaces is halved and not
always brought down to a single space, and what is left of a longer run can matter for the reading.

* `Heading.tidy_eq_tidy_squeeze_iff`: up to two spaces in a row are as good as one, and no more;
* `Heading.nil_mem_words_iff`, `Heading.parentOf_ne_nil_iff`: what the spaces that are left do to
  the words of the head and to the parent;
* `Heading.parse_eq_squeeze_iff`: which lines are read as if they had single spaces. -/

namespace DeclSurvey

namespace Heading

/-! ### The tidy line -/

theorem tidy_eq_resizeRuns (line : Text) :
    tidy line = Text.resizeRuns (fun k => (k + 1) / 2) (Text.strip line) :=
  Text.replaceAll_doubled_eq _

theorem tidy_squeeze (line : Text) : tidy (Text.squeeze line) = Text.squeeze (Text.strip line) := by
  have hstrip : Text.strip (Text.squeeze line) = Text.squeeze (Text.strip line) :=
    Text.trimBy_squeeze (by decide) line
  unfold tidy
  rw [hstrip]
  exact Text.replaceAll_of_not_infix (by simp) (Text.not_doubled_infix_squeeze _) _

/-- A doubled space is left where three spaces stand in a row. -/
theorem doubled_infix_tidy_iff (line : Text) :
    [' ', ' '] <:+: tidy line ↔ [' ', ' ', ' '] <:+: Text.strip line := by
  have hhalf := Text.replicate_infix_resizeRunsFrom_iff 2 (fun k => (k + 1) / 2) 0
    (Text.strip line)
  have hthree := Text.replicate_infix_iff 3 (Text.strip line)
  rw [tidy_eq_resizeRuns]
  refine hhalf.trans (Iff.trans ?_ hthree.symm)
  refine exists_congr fun k => and_congr_right fun _ => ?_
  omega

/-- Up to two spaces in a row are as good as one, and no more. -/
theorem tidy_eq_tidy_squeeze_iff (line : Text) :
    tidy line = tidy (Text.squeeze line) ↔ ¬ [' ', ' ', ' '] <:+: Text.strip line := by
  constructor
  · intro h hthree
    rw [← doubled_infix_tidy_iff, h, tidy_squeeze] at hthree
    exact Text.not_doubled_infix_squeeze _ hthree
  · intro h
    rw [tidy_squeeze, tidy_eq_resizeRuns]
    refine Text.resizeRunsFrom_congr fun k hk => ?_
    have hle : ¬ 3 ≤ k := fun hge => h ((Text.replicate_infix_iff 3 _).2 ⟨k, hk, hge⟩)
    show (k + 1) / 2 = min 1 k
    omega

/-- Squeezing the tidy line is squeezing the line first. -/
theorem squeeze_tidy (line : Text) : Text.squeeze (tidy line) = tidy (Text.squeeze line) := by
  rw [tidy_squeeze, tidy_eq_resizeRuns]
  unfold Text.squeeze Text.resizeRuns
  refine (Text.resizeRunsFrom_resizeRunsFrom _ _ 0 _).trans (Text.resizeRunsFrom_congr ?_)
  intro k _
  show min 1 ((k + 1) / 2) = min 1 k
  omega

theorem parse_eq_of_tidy_eq {line line' : Text} (h : tidy line = tidy line') :
    parse line = parse line' := by
  unfold parse
  rw [h]

/-! ### Words of the head -/

theorem words_parse_eq {line : Text} (h : (parse line).head ≠ []) :
    (parse line).words = Text.splitChar ' ' (parse line).head := by
  rw [head_parse] at h ⊢
  rw [parse_of_headOf_ne_nil h]

/-- A head has an empty word exactly when a doubled space is left in it. -/
theorem nil_mem_words_iff (line : Text) :
    [] ∈ (parse line).words ↔ [' ', ' '] <:+: (parse line).head := by
  by_cases h : (parse line).head = []
  · rw [parse_of_headOf_eq_nil (by rwa [head_parse] at h)]
    simp
  · rw [words_parse_eq h]
    refine Text.nil_mem_splitChar_iff h ?_
    rw [head_parse]
    exact (endsClear_headOf (tidy line)).space isBlank_space

/-! ### The parent -/

theorem beforeChar_ne_nil_iff {c : Char} {t : Text} :
    Text.beforeChar c t ≠ [] ↔ ∃ d u, t = d :: u ∧ d ≠ c := by
  cases t with
  | nil => simp [Text.beforeChar]
  | cons d u => simp [Text.beforeChar, List.takeWhile_cons]

/-- The parent is read off what follows the last parent keyword, and there is none without it. -/
theorem parentOf_eq (tail : Text) :
    parentOf tail =
      ((Text.afterLast? (' ' :: parentWord) (' ' :: tail)).map (Text.beforeChar ' ')).getD [] := by
  unfold parentOf clauseBody Text.afterLast
  cases hlast : Text.afterLast? (' ' :: parentWord) (' ' :: tail) with
  | none =>
    -- Without the keyword the whole tail is looked at, with the space in front of it.
    split
    · rfl
    · rfl
  | some body =>
    have hocc : Text.occursIn parentWord tail = true := by
      rw [Text.occursIn_iff]
      have hsuffix := Text.append_suffix_of_afterLast? hlast
      rw [List.cons_append, List.suffix_cons_iff] at hsuffix
      rcases hsuffix with heq | hsuffix
      · exact ⟨[], body, (List.cons.inj heq).2⟩
      · exact ((List.prefix_append parentWord body).isInfix.trans
          (List.suffix_cons ' ' _).isInfix).trans hsuffix.isInfix
    rw [if_pos hocc]
    rfl

/-- There is a parent exactly when what follows the last parent keyword does not start with a
space. -/
theorem parentOf_ne_nil_iff (tail : Text) :
    parentOf tail ≠ [] ↔
      ∃ c rest, Text.afterLast? (' ' :: parentWord) (' ' :: tail) = some (c :: rest) ∧ c ≠ ' ' := by
  rw [parentOf_eq]
  cases Text.afterLast? (' ' :: parentWord) (' ' :: tail) with
  | none => simp
  | some body =>
    show Text.beforeChar ' ' body ≠ [] ↔ _
    rw [beforeChar_ne_nil_iff]
    simp

/-! ### Reading the squeezed line -/

section Squeezed
open Text

/-- The head of the squeezed line is the head, squeezed, unless a space between a parent clause
and an interface clause is all that tells them apart. -/
theorem headOf_squeeze {line : Text}
    (h : ¬ ((beforeInterfaces line).getLast? = some ' ' ∧
      ' ' :: interfacesWord <:+: beforeChar clauseMark line ∧
      ' ' :: parentWord <:+: beforeInterfaces line)) :
    headOf (squeeze line) = squeeze (headOf line) := by
  rw [headOf_eq_trim, headOf_eq_trim]
  unfold beforeClauses beforeInterfaces at *
  rw [beforeChar_squeeze (by decide)]
  generalize beforeChar clauseMark line = t at h ⊢
  rw [interfacesWord_eq, parentWord_eq] at h ⊢
  have hparent : ∀ {u : Text}, ' ' :: (parentKeyword ++ [' ']) <:+: u →
      trim (beforeFirst (' ' :: (parentKeyword ++ [' '])) (squeeze u)) =
        squeeze (trim (beforeFirst (' ' :: (parentKeyword ++ [' '])) u)) :=
    fun hocc => trim_eq_squeeze_trim
      (beforeFirst_squeeze space_not_mem_parentKeyword (by decide) hocc)
  have hnone : ∀ {u u' : Text}, u' <+: squeeze u → ¬ ' ' :: (parentKeyword ++ [' ']) <:+: u →
      ¬ ' ' :: (parentKeyword ++ [' ']) <:+: u' :=
    fun hprefix hp hocc => hp (infix_of_infix_squeeze space_not_mem_parentKeyword (by decide)
      (hocc.trans hprefix.isInfix))
  by_cases hi : ' ' :: (interfacesKeyword ++ [' ']) <:+: t
  · have hcut := beforeFirst_squeeze space_not_mem_interfacesKeyword (by decide) hi
    generalize beforeFirst (' ' :: (interfacesKeyword ++ [' '])) (squeeze t) = u' at hcut ⊢
    generalize beforeFirst (' ' :: (interfacesKeyword ++ [' '])) t = u at h hcut ⊢
    have htrim := trim_eq_squeeze_trim hcut
    rw [squeeze_append_space] at hcut
    by_cases hp : ' ' :: (parentKeyword ++ [' ']) <:+: u
    · -- There is no space at the end of the cut, so it is squeezed like any other text.
      have hend : u.getLast? ≠ some ' ' := fun hend => h ⟨hend, hi, hp⟩
      rw [if_neg hend, List.append_left_inj] at hcut
      rw [hcut]
      exact hparent hp
    · have hprefix : u' <+: squeeze u := by
        split at hcut
        · exact ⟨[' '], hcut⟩
        · rw [List.append_left_inj] at hcut
          exact hcut ▸ List.prefix_rfl
      rw [beforeFirst_eq_self hp, beforeFirst_eq_self (hnone hprefix hp)]
      exact htrim
  · have hi' : ¬ ' ' :: (interfacesKeyword ++ [' ']) <:+: squeeze t := fun hocc =>
      hi (infix_of_infix_squeeze space_not_mem_interfacesKeyword (by decide) hocc)
    rw [beforeFirst_eq_self hi, beforeFirst_eq_self hi']
    by_cases hp : ' ' :: (parentKeyword ++ [' ']) <:+: t
    · exact hparent hp
    · rw [beforeFirst_eq_self hp, beforeFirst_eq_self (hnone List.prefix_rfl hp)]
      exact trimBy_squeeze (by decide) t

/-- Between the two clauses a space too many is seen in the rest of the line. -/
theorem doubled_infix_rest {line front head back later : Text}
    (hcut : beforeClauses line = front ++ (head ++ back))
    (hline : line = front ++ (head ++ (back ++ later)))
    (hend : (beforeInterfaces line).getLast? = some ' ')
    (hi : ' ' :: interfacesWord <:+: beforeChar clauseMark line)
    (hp : ' ' :: parentWord <:+: beforeInterfaces line) :
    [' ', ' '] <:+: trim (back ++ later) := by
  obtain ⟨before, hbefore⟩ : beforeChar clauseMark line <+: line := List.takeWhile_prefix _
  obtain ⟨behind, ht, -⟩ := exists_eq_beforeFirst_append hi
  obtain ⟨between, hu, -⟩ := exists_eq_beforeFirst_append hp
  change beforeChar clauseMark line = beforeInterfaces line ++ _ at ht
  change beforeInterfaces line = beforeClauses line ++ _ at hu
  rw [hcut] at hu
  have hlater : later =
      ' ' :: parentWord ++ between ++ (' ' :: interfacesWord ++ behind) ++ before := by
    refine (List.append_right_inj (front ++ (head ++ back))).1 ?_
    calc front ++ (head ++ back) ++ later = line := by
          rw [List.append_assoc, List.append_assoc]
          exact hline.symm
      _ = beforeInterfaces line ++ (' ' :: interfacesWord ++ behind) ++ before := by
          rw [← ht, hbefore]
      _ = _ := by
          rw [hu]
          simp only [List.append_assoc]
  obtain ⟨y, hy⟩ : ∃ y, parentWord ++ between = y ++ [' '] := by
    have hne : parentWord ++ between ≠ [] :=
      List.append_ne_nil_of_left_ne_nil (by decide) between
    have hparts : front ++ (head ++ back) ++ (' ' :: parentWord ++ between) =
        front ++ (head ++ back) ++ [' '] ++ (parentWord ++ between) := by
      simp
    rw [hu, hparts, List.getLast?_append_of_ne_nil _ hne] at hend
    exact List.getLast?_eq_some_iff.1 hend
  -- From the keyword of the parent to that of the interfaces nothing is trimmed.
  have hclear : EndsClear isBlank (parentWord ++ between ++ ' ' :: interfacesKeyword) := by
    refine ⟨?_, ?_⟩
    · intro c hc
      cases hc
      decide
    · have hword : ' ' :: interfacesKeyword = " implement".toList ++ ['s'] := by decide
      rw [hword, ← List.append_assoc]
      exact last_concat (by decide) _
  have hocc : parentWord ++ between ++ ' ' :: interfacesKeyword <:+: back ++ later := by
    refine ⟨back ++ [' '], [' '] ++ behind ++ before, ?_⟩
    rw [hlater, interfacesWord_eq]
    simp
  refine List.IsInfix.trans ?_ ((infix_trimBy_iff hclear (back ++ later)).2 hocc)
  exact ⟨y, interfacesKeyword, by rw [hy]; simp⟩

section Parts
variable {line front rest : Text} (hne : headOf line ≠ [])
  (hfront : ∀ c ∈ front, isBlank c = true) (hline : line = front ++ (headOf line ++ rest))
  (hsame : headOf (squeeze line) = headOf line) (hhead : ¬ [' ', ' '] <:+: headOf line)
include hne hfront hline hsame hhead

/-- What is read of the squeezed line, if its head is the same. -/
theorem tailOf_squeeze :
    tailOf (headOf line) (squeeze line) = trim (removeAll (headOf line) (squeeze rest)) ∧
    (tailOf (headOf line) (squeeze line) = squeeze (trim rest) ↔ ¬ headOf line <:+: squeeze rest) := by
  have hline' : squeeze line = squeeze front ++ (headOf (squeeze line) ++ squeeze rest) := by
    have hclear := (endsClear_headOf line).space isBlank_space
    have hparts := squeeze_append_append hne hclear front rest
    rw [squeeze_eq_self hhead, List.append_assoc, List.append_assoc, ← hline] at hparts
    rw [hsame]
    exact hparts
  have hne' : headOf (squeeze line) ≠ [] := by rwa [hsame]
  have hfront' := squeeze_of_class isBlank_space hfront
  have hswap : trim (squeeze rest) = squeeze (trim rest) := trimBy_squeeze isBlank_space rest
  have htail := tailOf_headOf hne' hfront' hline'
  have hiff := tailOf_headOf_eq_iff hne' hfront' hline'
  rw [hsame] at htail hiff
  rw [hswap] at hiff
  exact ⟨htail, hiff⟩

variable (hagain : ¬ headOf line <:+: rest)
include hagain

/-- A tail without doubled spaces is read of the squeezed line as it is, and no other. -/
theorem tailOf_squeeze_eq_iff :
    tailOf (headOf line) (squeeze line) = tailOf (headOf line) line ↔
      ¬ [' ', ' '] <:+: tailOf (headOf line) line := by
  obtain ⟨htail, hiff⟩ := tailOf_squeeze hne hfront hline hsame hhead
  rw [(tailOf_headOf_eq_iff hne hfront hline).2 hagain]
  constructor
  · intro heq
    have hnone : ¬ headOf line <:+: squeeze rest := by
      intro hocc
      -- The tail would be short of the characters of the head.
      obtain ⟨c, t, hct, hc⟩ := exists_headOf_eq_cons hne
      have hlt := countP_removeAll_lt (p := fun c => !isBlank c)
        ⟨c, by simp [hct], by simp [hc]⟩ hocc
      have hcount : (trim (removeAll (headOf line) (squeeze rest))).countP (fun c => !isBlank c) =
          (trim rest).countP (fun c => !isBlank c) := by
        rw [← htail, heq]
      unfold trim at hcount
      rw [countP_trimBy, countP_trimBy] at hcount
      rw [countP_squeeze] at hlt
      omega
    rw [← heq, hiff.2 hnone]
    exact not_doubled_infix_squeeze _
  · intro hdouble
    have hself : squeeze (trim rest) = trim rest := squeeze_eq_self hdouble
    rw [hself] at hiff
    refine hiff.2 fun hocc => hagain ?_
    -- The head has no white space at its ends, so trimming does not hide it.
    have hkept := (infix_trimBy_iff (endsClear_headOf line) (squeeze rest)).2 hocc
    rw [trimBy_squeeze isBlank_space] at hkept
    change headOf line <:+: squeeze (trim rest) at hkept
    rw [hself] at hkept
    exact hkept.trans (trimBy_isInfix _ _)

end Parts

/-- Lines with a head are read the same exactly when they have the same head and tail. -/
theorem parse_eq_iff {line line' : Text} (hne : headOf (tidy line) ≠ []) :
    parse line = parse line' ↔
      headOf (tidy line') = headOf (tidy line) ∧
      tailOf (headOf (tidy line)) (tidy line') = tailOf (headOf (tidy line)) (tidy line) := by
  constructor
  · intro h
    have hhead : headOf (tidy line') = headOf (tidy line) := by
      rw [← head_parse, ← head_parse, h]
    have hne' : (parse line').head ≠ [] := by rwa [head_parse, hhead]
    have htail : (parse line').tail = (parse line).tail := by rw [h]
    rw [tail_parse hne', tail_parse (by rwa [head_parse]), head_parse, head_parse, hhead] at htail
    exact ⟨hhead, htail⟩
  · rintro ⟨hhead, htail⟩
    unfold parse
    simp only [hhead, htail]

/-- A line whose head does not come again is read like the squeezed line exactly when no doubled
space is left in its head or its tail. -/
theorem parse_eq_squeeze_iff {line rest : Text} (hne : (parse line).head ≠ [])
    (hrest : afterFirst? (parse line).head (tidy line) = some rest)
    (hagain : ¬ (parse line).head <:+: rest) :
    parse line = parse (squeeze line) ↔
      ¬ [' ', ' '] <:+: (parse line).head ∧ ¬ [' ', ' '] <:+: (parse line).tail := by
  rw [tail_parse hne]
  rw [head_parse] at hne hrest hagain ⊢
  rw [parse_eq_iff hne, ← squeeze_tidy]
  obtain ⟨front, back, later, hfront, -, hcut, hline⟩ := exists_eq_append_headOf (tidy line)
  have heq : back ++ later = rest :=
    Option.some.inj ((afterFirst?_headOf hne hfront hline).symm.trans hrest)
  subst heq
  constructor
  · rintro ⟨hsame, htail⟩
    have hhead : ¬ [' ', ' '] <:+: headOf (tidy line) := by
      obtain ⟨a, b, c, -, -, -, hsplit⟩ := exists_eq_append_headOf (squeeze (tidy line))
      intro hdouble
      rw [← hsame] at hdouble
      refine not_doubled_infix_squeeze (tidy line) (hdouble.trans ?_)
      exact ⟨a, b ++ c, by rw [List.append_assoc]; exact hsplit.symm⟩
    exact ⟨hhead, (tailOf_squeeze_eq_iff hne hfront hline hsame hhead hagain).1 htail⟩
  · rintro ⟨hhead, htail⟩
    have hsame : headOf (squeeze (tidy line)) = headOf (tidy line) := by
      have hquiet : ¬ [' ', ' '] <:+: trim (back ++ later) := by
        rwa [← (tailOf_headOf_eq_iff hne hfront hline).2 hagain]
      rw [headOf_squeeze fun ⟨hend, hi, hp⟩ =>
        hquiet (doubled_infix_rest hcut hline hend hi hp), squeeze_eq_self hhead]
    exact ⟨hsame, (tailOf_squeeze_eq_iff hne hfront hline hsame hhead hagain).2 htail⟩

end Squeezed

/-- What runs of spaces do in a declaration line.  Each is halved, rounding up, so a line with no
three spaces in a row is read as if it had single spaces.  If the head does not come again in the
line, this is so exactly when no doubled space is left in head and tail.  A doubled space that is
left in the head makes an empty word, and there is a parent exactly when none is left behind the
last parent keyword. -/
theorem parse_spacing (line : Text) :
    tidy line = Text.resizeRuns (fun n => (n + 1) / 2) (Text.strip line) ∧
    (¬ [' ', ' ', ' '] <:+: Text.strip line → parse line = parse (Text.squeeze line)) ∧
    (∀ rest, (parse line).head ≠ [] →
      Text.afterFirst? (parse line).head (tidy line) = some rest →
      ¬ (parse line).head <:+: rest →
      (parse line = parse (Text.squeeze line) ↔
        ¬ [' ', ' '] <:+: (parse line).head ∧ ¬ [' ', ' '] <:+: (parse line).tail)) ∧
    ([] ∈ (parse line).words ↔ [' ', ' '] <:+: (parse line).head) ∧
    ((parse line).parent ≠ [] ↔
      ∃ c rest, Text.afterLast? (' ' :: parentWord) (' ' :: (parse line).tail) =
        some (c :: rest) ∧ c ≠ ' ') := by
  refine ⟨tidy_eq_resizeRuns line, ?_, ?_, nil_mem_words_iff line, ?_⟩
  · intro h
    exact parse_eq_of_tidy_eq ((tidy_eq_tidy_squeeze_iff line).2 h)
  · intro rest hne hrest hagain
    exact parse_eq_squeeze_iff hne hrest hagain
  · rw [(clauses_parse line).1]
    exact parentOf_ne_nil_iff _

/-- Doubled spaces do not matter, nor does any number of them in front of the first clause. -/
theorem parse_spacing_circle :
    parse "final  class  Circle".toList = parse "final class Circle".toList ∧
    parse "class Circle     extends  Shape".toList = parse "class Circle extends Shape".toList := by
  constructor
  · obtain ⟨-, hshort, -⟩ := parse_spacing "final  class  Circle".toList
    exact hshort (Text.not_infix_of_occursIn (by decide +kernel))
  · have hparse : parse "class Circle     extends  Shape".toList =
        { head := "class Circle".toList
          tail := "extends Shape".toList
          words := ["class".toList, "Circle".toList]
          parent := "Shape".toList
          interfaces := [] } := by
      decide +kernel
    obtain ⟨-, -, hiff, -⟩ := parse_spacing "class Circle     extends  Shape".toList
    have hread := hiff "   extends Shape".toList
    rw [hparse] at hread
    have hsqueeze := (hread (by decide) (by decide +kernel)
      (Text.not_infix_of_occursIn (by decide +kernel))).2
      ⟨Text.not_infix_of_occursIn (by decide), Text.not_infix_of_occursIn (by decide)⟩
    rw [hparse, hsqueeze]
    decide +kernel

/-- Three spaces in a row leave an empty word in the head and no parent. -/
theorem not_all_spacing_ignored :
    ¬ ∀ line : Text, parse line = parse (Text.squeeze line) := by
  intro h
  have hthree : parse "class   Foo extends   Bar".toList =
      { head := "class  Foo".toList
        tail := "extends  Bar".toList
        words := ["class".toList, [], "Foo".toList]
        parent := []
        interfaces := [] } := by
    decide +kernel
  have hsame := h "class   Foo extends   Bar".toList
  rw [hthree] at hsame
  revert hsame
  decide +kernel

end Heading

end DeclSurvey
