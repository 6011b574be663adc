import DeclSurvey.Proofs.HeadingParts

/-! # The head of a line and what follows it

Any line is read as a declaration line: a head, and the rest of the line behind it.  This file says
for arbitrary lines where the head stands and what becomes of the rest.

* **First occurrences**: `Text.beforeFirst` and `Text.afterFirst?` cut a text at the first
  occurrence of a mark.
* **Head**: `Heading.beforeClauses` cuts the line in front of its clauses, and the head is what this
  leaves without white space (`Heading.headOf_eq_trim`).  So the head is found in the line with
  nothing but white space in front of it (`Heading.exists_eq_append_headOf`).
* **Rest**: `Heading.tail_eq_rest_iff`: the tail is the rest of the line exactly when the head does
  not come again in it, since it is taken out wherever it occurs. -/

namespace DeclSurvey

namespace Text

/-! ### First occurrences -/

/-- What precedes the first occurrence of the non-empty text `mark`, and the whole text if there is
none. -/
def beforeFirst (mark : Text) : Text → Text
  | [] => []
  | c :: t => if mark.isPrefixOf (c :: t) then [] else c :: beforeFirst mark t

/-- What follows the first occurrence of the non-empty text `mark`, if there is one. -/
def afterFirst? (mark : Text) : Text → Option Text
  | [] => none
  | c :: t => if mark.isPrefixOf (c :: t) then some ((c :: t).drop mark.length)
      else afterFirst? mark t

theorem beforeFirst_cons_of_starts {mark : Text} {c : Char} {t : Text} (h : mark <+: c :: t) :
    beforeFirst mark (c :: t) = [] := by
  rw [beforeFirst, if_pos (List.isPrefixOf_iff_prefix.2 h)]

theorem beforeFirst_cons_of_not_starts {mark : Text} {c : Char} {t : Text}
    (h : ¬ mark <+: c :: t) : beforeFirst mark (c :: t) = c :: beforeFirst mark t := by
  rw [beforeFirst, if_neg (mt List.isPrefixOf_iff_prefix.1 h)]

theorem beforeFirst_isPrefix (mark t : Text) : beforeFirst mark t <+: t := by
  induction t with
  | nil => exact List.prefix_rfl
  | cons c t ih =>
    rw [beforeFirst]
    split
    · exact List.nil_prefix
    · exact List.cons_prefix_cons.2 ⟨rfl, ih⟩

theorem beforeFirst_eq_self {mark t : Text} (h : ¬ mark <:+: t) : beforeFirst mark t = t := by
  induction t with
  | nil => rfl
  | cons c t ih =>
    rw [List.infix_cons_iff, not_or] at h
    rw [beforeFirst_cons_of_not_starts h.1, ih h.2]

/-- What stands in front of the first occurrence of a mark does not hold the mark. -/
theorem mark_not_infix_beforeFirst {mark : Text} (hmark : mark ≠ []) (t : Text) :
    ¬ mark <:+: beforeFirst mark t := by
  induction t with
  | nil =>
    intro h
    exact hmark (List.infix_nil.1 h)
  | cons c t ih =>
    by_cases hp : mark <+: c :: t
    · rw [beforeFirst_cons_of_starts hp]
      exact fun h => hmark (List.infix_nil.1 h)
    · rw [beforeFirst_cons_of_not_starts hp, List.infix_cons_iff, not_or]
      refine ⟨?_, ih⟩
      -- An occurrence at the start of the cut would be one at the start of the text.
      intro hshort
      exact hp (hshort.trans (List.cons_prefix_cons.2 ⟨rfl, beforeFirst_isPrefix mark t⟩))

/-- A mark is cut off where it first starts. -/
theorem beforeFirst_append {mark a rest : Text} (hmark : mark ≠ [])
    (h : NoStart mark a (mark ++ rest)) : beforeFirst mark (a ++ (mark ++ rest)) = a := by
  induction a with
  | nil =>
    cases mark with
    | nil => exact absurd rfl hmark
    | cons c mark => exact beforeFirst_cons_of_starts (List.prefix_append (c :: mark) rest)
  | cons c a ih =>
    rw [List.cons_append, beforeFirst_cons_of_not_starts h.1, ih h.2]

/-- The cut passes over text in which no occurrence starts. -/
theorem beforeFirst_append_of_noStart {mark a rest : Text} (h : NoStart mark a rest) :
    beforeFirst mark (a ++ rest) = a ++ beforeFirst mark rest := by
  induction a with
  | nil => rfl
  | cons c a ih =>
    rw [List.cons_append, beforeFirst_cons_of_not_starts h.1, ih h.2, List.cons_append]

theorem exists_eq_beforeFirst_append {mark t : Text} (h : mark <:+: t) :
    ∃ rest, t = beforeFirst mark t ++ (mark ++ rest) ∧
      NoStart mark (beforeFirst mark t) (mark ++ rest) := by
  induction t with
  | nil =>
    have hnil := List.infix_nil.1 h
    subst hnil
    exact ⟨[], rfl, trivial⟩
  | cons c t ih =>
    by_cases hp : mark <+: c :: t
    · rw [beforeFirst_cons_of_starts hp]
      obtain ⟨rest, hrest⟩ := hp
      exact ⟨rest, hrest.symm, trivial⟩
    · obtain ⟨rest, hrest, hstart⟩ := ih ((List.infix_cons_iff.1 h).resolve_left hp)
      rw [beforeFirst_cons_of_not_starts hp]
      refine ⟨rest, by rw [List.cons_append, ← hrest], ?_, hstart⟩
      rwa [← hrest]

/-- The first occurrence is the one that no other starts before. -/
theorem afterFirst?_append {mark a rest : Text} (hmark : mark ≠ [])
    (h : NoStart mark a (mark ++ rest)) : afterFirst? mark (a ++ (mark ++ rest)) = some rest := by
  induction a with
  | nil =>
    cases mark with
    | nil => exact absurd rfl hmark
    | cons c mark =>
      have hp : (c :: mark).isPrefixOf (c :: (mark ++ rest)) = true :=
        List.isPrefixOf_iff_prefix.2 (List.prefix_append (c :: mark) rest)
      rw [List.nil_append, List.cons_append, afterFirst?, if_pos hp, ← List.cons_append,
        List.drop_left]
  | cons c a ih =>
    have hp : ¬ mark.isPrefixOf (c :: (a ++ (mark ++ rest))) = true :=
      fun hp => h.1 (List.isPrefixOf_iff_prefix.1 hp)
    rw [List.cons_append, afterFirst?, if_neg hp, ih h.2]

/-- Putting `m` in the place of a text and cutting at the first `m` is to cut at the first `m`, and
then at the first occurrence of the text. -/
theorem beforeChar_replaceAll {m : Char} {old : Text} (hold : old ≠ []) (hm : m ∉ old) (t : Text) :
    beforeChar m (replaceAll old [m] t) = beforeFirst old (beforeChar m t) := by
  induction t with
  | nil => rfl
  | cons c t ih =>
    by_cases hp : old <+: c :: t
    · -- The occurrence lies in front of the first `m`, as it does not hold any.
      obtain ⟨u, hu⟩ := hp
      have hcut : beforeChar m (old ++ u) = old ++ beforeChar m u := by
        unfold beforeChar
        refine List.takeWhile_append_of_pos fun d hd => ?_
        simpa using fun heq : d = m => hm (heq ▸ hd)
      have hnil : beforeFirst old (old ++ beforeChar m u) = [] := by
        cases old with
        | nil => exact absurd rfl hold
        | cons d old => exact beforeFirst_cons_of_starts (List.prefix_append (d :: old) _)
      rw [← hu, replaceAll_self_append hold, hcut, hnil]
      simp [beforeChar]
    · have hreplace : replaceAll old [m] (c :: t) = c :: replaceAll old [m] t :=
        replaceAll_append (a := [c]) ⟨hp, trivial⟩ [m]
      rw [hreplace]
      unfold beforeChar at ih ⊢
      by_cases hc : c = m
      · rw [List.takeWhile_cons_of_neg (by simpa using hc),
          List.takeWhile_cons_of_neg (by simpa using hc)]
        rfl
      · rw [List.takeWhile_cons_of_pos (by simpa using hc),
          List.takeWhile_cons_of_pos (by simpa using hc), ih, beforeFirst_cons_of_not_starts]
        intro hshort
        exact hp (hshort.trans (List.cons_prefix_cons.2 ⟨rfl, List.takeWhile_prefix _⟩))

/-! ### Trimming and removing -/

/-- Trimming keeps all characters that are outside the class. -/
theorem countP_trimBy (p : Char → Bool) (t : Text) :
    (trimBy p t).countP (fun c => !p c) = t.countP (fun c => !p c) := by
  obtain ⟨front, back, hfront, hback, heq⟩ := exists_eq_append_trimBy p t
  have hzero : ∀ {u : Text}, (∀ c ∈ u, p c = true) → u.countP (fun c => !p c) = 0 := by
    intro u hu
    rw [List.countP_eq_zero]
    intro c hc
    simp [hu c hc]
  rw [heq, List.countP_append, List.countP_append, hzero hfront, hzero hback, ← heq]
  omega

/-- Removing a text that is not all white space is noticed behind the trimming exactly when the
text occurs. -/
theorem trim_removeAll_eq_trim_iff {old : Text} (hold : ∃ c ∈ old, isBlank c = false) (t : Text) :
    trim (removeAll old t) = trim t ↔ ¬ old <:+: t := by
  constructor
  · intro h hocc
    have hcount : (trim (removeAll old t)).countP (fun c => !isBlank c) =
        (trim t).countP (fun c => !isBlank c) := by rw [h]
    unfold trim at hcount
    rw [countP_trimBy, countP_trimBy] at hcount
    have hlt := countP_removeAll_lt (p := fun c => !isBlank c) (by simpa using hold) hocc
    omega
  · intro h
    obtain ⟨c, hc, -⟩ := hold
    rw [(removeAll_eq_self_iff (List.ne_nil_of_mem hc)).2 h]

end Text

namespace Heading

/-! ### The head -/

/-- The line up to its first interface clause, if no clause mark comes before it. -/
def beforeInterfaces (line : Text) : Text :=
  Text.beforeFirst (' ' :: interfacesWord) (Text.beforeChar clauseMark line)

/-- The line up to its first clause: of what the interface clause leaves, the text in front of the
parent clause. -/
def beforeClauses (line : Text) : Text :=
  Text.beforeFirst (' ' :: parentWord) (beforeInterfaces line)

/-- Marking the clauses is a way to cut the line in front of them. -/
theorem headOf_eq_trim (line : Text) : headOf line = Text.trim (beforeClauses line) := by
  unfold headOf markClauses beforeClauses beforeInterfaces
  rw [Text.beforeChar_replaceAll (List.cons_ne_nil _ _) (by decide),
    Text.beforeChar_replaceAll (List.cons_ne_nil _ _) (by decide)]

theorem beforeClauses_isPrefix (line : Text) : beforeClauses line <+: line :=
  ((Text.beforeFirst_isPrefix _ _).trans (Text.beforeFirst_isPrefix _ _)).trans
    (List.takeWhile_prefix _)

/-- The head stands in the line with nothing but white space between it and the ends of the cut. -/
theorem exists_eq_append_headOf (line : Text) :
    ∃ front back later, (∀ c ∈ front, Text.isBlank c = true) ∧
      (∀ c ∈ back, Text.isBlank c = true) ∧
      beforeClauses line = front ++ (headOf line ++ back) ∧
      line = front ++ (headOf line ++ (back ++ later)) := by
  obtain ⟨later, hlater⟩ := beforeClauses_isPrefix line
  obtain ⟨front, back, hfront, hback, heq⟩ :=
    Text.exists_eq_append_trimBy Text.isBlank (beforeClauses line)
  have hcut : beforeClauses line = front ++ (headOf line ++ back) := by
    rw [headOf_eq_trim, ← List.append_assoc]
    exact heq
  refine ⟨front, back, later, hfront, hback, hcut, ?_⟩
  rw [← List.append_assoc (headOf line), ← List.append_assoc front, ← hcut, hlater]

theorem endsClear_headOf (line : Text) : Text.EndsClear Text.isBlank (headOf line) :=
  Text.endsClear_trimBy _ _

/-- A head that is not empty starts with a character that is not white space. -/
theorem exists_headOf_eq_cons {line : Text} (h : headOf line ≠ []) :
    ∃ c t, headOf line = c :: t ∧ Text.isBlank c = false := by
  obtain ⟨c, t, hct⟩ := List.exists_cons_of_ne_nil h
  have hclear := endsClear_headOf line
  rw [hct] at hclear
  exact ⟨c, t, hct, hclear.head c rfl⟩

/-- White space in front of the head is not where the head starts. -/
theorem noStart_headOf {line : Text} (h : headOf line ≠ []) {front : Text}
    (hfront : ∀ c ∈ front, Text.isBlank c = true) (rest : Text) :
    Text.NoStart (headOf line) front rest := by
  obtain ⟨c, t, hct, hc⟩ := exists_headOf_eq_cons h
  rw [hct]
  exact Text.noStart_of_not_mem (Text.not_mem_of_class hc hfront) rest

/-! ### The rest -/

theorem parse_of_headOf_eq_nil {line : Text} (h : headOf (tidy line) = []) : parse line = {} := by
  unfold parse
  simp only
  rw [if_pos (by simpa using h)]

/-- A line with a head is read off the head and the tail. -/
theorem parse_of_headOf_ne_nil {line : Text} (h : headOf (tidy line) ≠ []) :
    parse line =
      { head := headOf (tidy line)
        tail := tailOf (headOf (tidy line)) (tidy line)
        words := Text.splitChar ' ' (headOf (tidy line))
        parent := parentOf (tailOf (headOf (tidy line)) (tidy line))
        interfaces := interfacesOf (tailOf (headOf (tidy line)) (tidy line)) } := by
  unfold parse
  simp only
  rw [if_neg (by simpa using h)]

theorem head_parse (line : Text) : (parse line).head = headOf (tidy line) := by
  by_cases h : headOf (tidy line) = []
  · rw [parse_of_headOf_eq_nil h, h]
  · rw [parse_of_headOf_ne_nil h]

theorem tail_parse {line : Text} (h : (parse line).head ≠ []) :
    (parse line).tail = tailOf (parse line).head (tidy line) := by
  rw [head_parse] at h ⊢
  rw [parse_of_headOf_ne_nil h]

theorem endsClear_tail_parse (line : Text) : Text.EndsClear Text.isBlank (parse line).tail := by
  by_cases h : headOf (tidy line) = []
  · rw [parse_of_headOf_eq_nil h]
    exact Text.endsClear_trimBy _ []
  · rw [parse_of_headOf_ne_nil h]
    exact Text.endsClear_trimBy _ _

/-- The clauses are read off the tail. -/
theorem clauses_parse (line : Text) :
    (parse line).parent = parentOf (parse line).tail ∧
    (parse line).interfaces = interfacesOf (parse line).tail := by
  by_cases h : headOf (tidy line) = []
  · rw [parse_of_headOf_eq_nil h]
    exact ⟨rfl, rfl⟩
  · rw [parse_of_headOf_ne_nil h]
    exact ⟨rfl, rfl⟩

section Rest
variable {line front rest : Text} (hne : headOf line ≠ [])
  (hfront : ∀ c ∈ front, Text.isBlank c = true) (hline : line = front ++ (headOf line ++ rest))
include hne hfront hline

theorem afterFirst?_headOf : Text.afterFirst? (headOf line) line = some rest := by
  have hfirst := Text.afterFirst?_append hne (noStart_headOf hne hfront (headOf line ++ rest))
  rwa [← hline] at hfirst

/-- The tail is what the head leaves of the rest. -/
theorem tailOf_headOf :
    tailOf (headOf line) line = Text.trim (Text.removeAll (headOf line) rest) := by
  have hremove : Text.removeAll (headOf line) line =
      front ++ Text.removeAll (headOf line) rest := by
    have hpass := Text.replaceAll_append (noStart_headOf hne hfront (headOf line ++ rest)) []
    rw [← hline, Text.replaceAll_self_append hne] at hpass
    exact hpass
  unfold tailOf
  rw [hremove]
  exact Text.trimBy_front_append hfront _

/-- The tail is the rest exactly when the head does not come again in it. -/
theorem tailOf_headOf_eq_iff :
    tailOf (headOf line) line = Text.trim rest ↔ ¬ headOf line <:+: rest := by
  obtain ⟨c, t, hct, hc⟩ := exists_headOf_eq_cons hne
  rw [tailOf_headOf hne hfront hline]
  exact Text.trim_removeAll_eq_trim_iff ⟨c, by simp [hct], hc⟩ rest

end Rest

/-- The tail is the rest of the line behind the first occurrence of the head, without the head
wherever it comes again in it.  So it is that rest as it stands, and a part of the line, exactly
when the head does not come again. -/
theorem tail_eq_rest_iff (line : Text) (hhead : (parse line).head ≠ []) :
    ∃ rest, Text.afterFirst? (parse line).head (tidy line) = some rest ∧
      (parse line).tail = Text.trim (Text.removeAll (parse line).head rest) ∧
      ((parse line).tail = Text.trim rest ↔ ¬ (parse line).head <:+: rest) ∧
      (¬ (parse line).head <:+: rest → (parse line).tail <:+: tidy line) := by
  have hne := hhead
  rw [head_parse] at hne
  rw [tail_parse hhead, head_parse]
  obtain ⟨front, back, later, hfront, -, -, hline⟩ := exists_eq_append_headOf (tidy line)
  have hiff := tailOf_headOf_eq_iff hne hfront hline
  refine ⟨back ++ later, afterFirst?_headOf hne hfront hline, tailOf_headOf hne hfront hline, hiff,
    ?_⟩
  intro hnot
  have hsuffix : back ++ later <:+ tidy line :=
    ⟨front ++ headOf (tidy line), by simpa using hline.symm⟩
  rw [hiff.2 hnot]
  exact (Text.trimBy_isInfix _ _).trans hsuffix.isInfix

/-- A class with both clauses, written with doubled spaces. -/
theorem tail_eq_rest_circle :
    (parse "final class  Circle  extends Shape implements  Round;".toList).tail =
      "extends Shape implements Round".toList := by
  have hhead : (parse "final class  Circle  extends Shape implements  Round;".toList).head =
      "final class Circle".toList := by
    decide +kernel
  obtain ⟨rest, hafter, -, hiff, -⟩ := tail_eq_rest_iff
    "final class  Circle  extends Shape implements  Round;".toList (by rw [hhead]; decide)
  have hrest : Text.afterFirst? "final class Circle".toList
      (tidy "final class  Circle  extends Shape implements  Round;".toList) =
        some " extends Shape implements Round".toList := by
    decide +kernel
  rw [hhead] at hafter hiff
  have heq : rest = " extends Shape implements Round".toList :=
    Option.some.inj (hafter.symm.trans hrest)
  rw [heq] at hiff
  rw [hiff.2 (Text.not_infix_of_occursIn (by decide +kernel))]
  decide +kernel

/-- The head of a class can come again where a parent that ends in its keyword meets the interface
clause, whose keyword starts like its name.  Then the interface is lost with it. -/
theorem not_all_tails_rest :
    ¬ ∀ line : Text, (parse line).head ≠ [] →
      ∃ rest, Text.afterFirst? (parse line).head (tidy line) = some rest ∧
        (parse line).tail = Text.trim rest := by
  intro h
  have hparse : parse "class i extends Baseclass implements Foo".toList =
      { head := "class i".toList
        tail := "extends Basemplements Foo".toList
        words := ["class".toList, "i".toList]
        parent := "Basemplements".toList
        interfaces := [] } := by
    decide +kernel
  obtain ⟨rest, hafter, htail⟩ :=
    h "class i extends Baseclass implements Foo".toList (by rw [hparse]; decide)
  have hrest : Text.afterFirst? "class i".toList
      (tidy "class i extends Baseclass implements Foo".toList) =
        some " extends Baseclass implements Foo".toList := by
    decide +kernel
  rw [hparse] at hafter htail
  have heq : rest = " extends Baseclass implements Foo".toList :=
    Option.some.inj (hafter.symm.trans hrest)
  rw [heq] at htail
  revert htail
  decide +kernel

end Heading

end DeclSurvey
