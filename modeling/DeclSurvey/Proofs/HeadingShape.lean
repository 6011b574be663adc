import DeclSurvey.Proofs.HeadingSpacing

/-! # The shape of a heading

Whatever line comes last at top level is read as a declaration line, so a heading can be read from
any line at all.  This file says what holds of a heading without a word about the line.

* **Clauses**: `StartsClause` is what can follow the head in the line.  The keywords are looked for
  one after the other, and each cut keeps a clause behind it (`exists_eq_beforeFirst_clause`).
* **Head**: no clause is left in it (`clause_not_infix_headOf`), and behind it a clause starts
  unless the line ends (`exists_eq_beforeClauses_append`).
* **Words and names**: the words make up the head, the last of them is not empty
  (`name_parse_ne_nil`), and the separators of the clauses are in none of the names
  (`space_not_mem_parentOf`, `mem_interfacesOf`). -/

namespace DeclSurvey

namespace Heading

/-! ### The head -/

/-- The text is empty or starts with a clause: with the mark of one, or with a clause keyword
between spaces. -/
def StartsClause (t : Text) : Prop :=
  t = [] ∨ [clauseMark] <+: t ∨ " extends ".toList <+: t ∨ " implements ".toList <+: t

/-- Cutting at one more keyword leaves a clause behind the cut. -/
theorem exists_eq_beforeFirst_clause {mark line t : Text}
    (hmark : ∀ u, StartsClause (mark ++ u))
    (h : ∃ rest, line = t ++ rest ∧ StartsClause rest) :
    ∃ rest, line = Text.beforeFirst mark t ++ rest ∧ StartsClause rest := by
  obtain ⟨rest, hline, hrest⟩ := h
  by_cases hocc : mark <:+: t
  · obtain ⟨behind, ht, -⟩ := Text.exists_eq_beforeFirst_append hocc
    refine ⟨mark ++ (behind ++ rest), ?_, hmark _⟩
    calc line = t ++ rest := hline
      _ = Text.beforeFirst mark t ++ (mark ++ behind) ++ rest := by rw [← ht]
      _ = Text.beforeFirst mark t ++ (mark ++ (behind ++ rest)) := by
        simp only [List.append_assoc]
  · -- There is nothing to cut off, so what follows is what followed before.
    exact ⟨rest, by rw [Text.beforeFirst_eq_self hocc, hline], hrest⟩

/-- A clause starts where the line is cut in front of its clauses, unless the line ends there. -/
theorem exists_eq_beforeClauses_append (line : Text) :
    ∃ rest, line = beforeClauses line ++ rest ∧ StartsClause rest := by
  have hmark : ∃ rest, line = Text.beforeChar clauseMark line ++ rest ∧ StartsClause rest := by
    refine ⟨line.dropWhile (· != clauseMark), List.takeWhile_append_dropWhile.symm, ?_⟩
    cases hrest : line.dropWhile (· != clauseMark) with
    | nil => exact Or.inl rfl
    | cons c rest =>
      have htest := List.head?_dropWhile_not (· != clauseMark) line
      rw [hrest] at htest
      have hc : c = clauseMark := by simpa using htest
      exact Or.inr (Or.inl ⟨rest, by rw [hc]; rfl⟩)
  have hinterfaces : ∀ u, StartsClause (' ' :: interfacesWord ++ u) :=
    fun u => Or.inr (Or.inr (Or.inr (List.prefix_append _ u)))
  have hparent : ∀ u, StartsClause (' ' :: parentWord ++ u) :=
    fun u => Or.inr (Or.inr (Or.inl (List.prefix_append _ u)))
  -- The cuts are made in this order: at a mark, at the interfaces, at the parent.
  exact exists_eq_beforeFirst_clause hparent (exists_eq_beforeFirst_clause hinterfaces hmark)

theorem headOf_isInfix (line : Text) : headOf line <:+: beforeClauses line := by
  rw [headOf_eq_trim]
  exact Text.trimBy_isInfix _ _

/-- Neither the mark of a clause nor a clause keyword between spaces is left in the head. -/
theorem clause_not_infix_headOf (line : Text) :
    clauseMark ∉ headOf line ∧ ¬ " extends ".toList <:+: headOf line ∧
    ¬ " implements ".toList <:+: headOf line := by
  have hinterfaces : beforeClauses line <+: beforeInterfaces line := Text.beforeFirst_isPrefix _ _
  have hmark : beforeInterfaces line <+: Text.beforeChar clauseMark line :=
    Text.beforeFirst_isPrefix _ _
  refine ⟨?_, ?_, ?_⟩
  · intro h
    apply Text.not_mem_beforeChar clauseMark line
    exact (hinterfaces.trans hmark).subset ((headOf_isInfix line).subset h)
  · intro h
    apply Text.mark_not_infix_beforeFirst (List.cons_ne_nil ' ' parentWord) (beforeInterfaces line)
    exact h.trans (headOf_isInfix line)
  · intro h
    apply Text.mark_not_infix_beforeFirst (List.cons_ne_nil ' ' interfacesWord)
      (Text.beforeChar clauseMark line)
    exact h.trans ((headOf_isInfix line).trans hinterfaces.isInfix)

/-- The head stands in the line between white space, and a clause follows unless the line ends. -/
theorem exists_eq_headOf_append (line : Text) :
    ∃ front back rest, (∀ c ∈ front, Text.isBlank c = true) ∧
      (∀ c ∈ back, Text.isBlank c = true) ∧
      line = front ++ headOf line ++ back ++ rest ∧ StartsClause rest := by
  obtain ⟨rest, hline, hrest⟩ := exists_eq_beforeClauses_append line
  obtain ⟨front, back, hfront, hback, hcut⟩ :=
    Text.exists_eq_append_trimBy Text.isBlank (beforeClauses line)
  refine ⟨front, back, rest, hfront, hback, ?_, hrest⟩
  rw [headOf_eq_trim]
  calc line = beforeClauses line ++ rest := hline
    _ = front ++ Text.trim (beforeClauses line) ++ back ++ rest := congrArg (· ++ rest) hcut

/-! ### Words and names -/

theorem joinWith_words_parse (line : Text) :
    Text.joinWith [' '] (parse line).words = (parse line).head := by
  by_cases h : (parse line).head = []
  · rw [parse_of_headOf_eq_nil (by rwa [head_parse] at h)]
    rfl
  · rw [words_parse_eq h]
    exact Text.joinWith_splitChar ' ' _

/-- A head that is not empty has a name at its end. -/
theorem name_parse_ne_nil {line : Text} (h : (parse line).head ≠ []) :
    (parse line).name ≠ [] := by
  have hend : (parse line).head.getLast? ≠ some ' ' := by
    intro hspace
    have hblank : Text.isBlank ' ' = false := by
      rw [head_parse] at hspace
      exact (endsClear_headOf (tidy line)).last ' ' hspace
    rw [isBlank_space] at hblank
    cases hblank
  have hlast := List.getLast?_eq_some_getLast (Text.splitChar_ne_nil ' ' (parse line).head)
  unfold name
  rw [words_parse_eq h, hlast]
  exact Text.getLast_splitChar_ne_nil h hend hlast

theorem space_not_mem_parentOf (tail : Text) : ' ' ∉ parentOf tail := by
  unfold parentOf
  split
  · exact Text.not_mem_beforeChar ' ' _
  · exact List.not_mem_nil

/-- Commas divide the list of interfaces, and a name ends at the first space of its item. -/
theorem mem_interfacesOf {tail name : Text} (h : name ∈ interfacesOf tail) :
    ' ' ∉ name ∧ ',' ∉ name := by
  unfold interfacesOf at h
  split at h
  · obtain ⟨item, hitem, rfl⟩ := List.mem_map.1 h
    have hcut : interfaceName item <:+: Text.beforeChar ' ' (Text.trim item) :=
      Text.trimBy_isInfix _ _
    refine ⟨fun hc => Text.not_mem_beforeChar ' ' _ (hcut.subset hc), ?_⟩
    intro hc
    have hmem : ',' ∈ Text.trim item := (List.takeWhile_prefix _).subset (hcut.subset hc)
    exact Text.sep_not_mem_of_mem_splitChar hitem ((Text.trimBy_isInfix _ _).subset hmem)
  · cases h

/-! ### Any line -/

/-- What a heading looks like, whatever line it is read from.  The head has no white space at its
ends and no clause in it; the tidy line is the head between white space, and what follows is
nothing or a clause.  The words joined by spaces are the head, the parent holds no space, and the
interfaces hold neither a space nor a comma.  Without a head there is nothing. -/
theorem parse_shape (line : Text) :
    Text.EndsClear Text.isBlank (parse line).head ∧
    (clauseMark ∉ (parse line).head ∧ ¬ " extends ".toList <:+: (parse line).head ∧
      ¬ " implements ".toList <:+: (parse line).head) ∧
    (∃ front back rest, (∀ c ∈ front, Text.isBlank c = true) ∧
      (∀ c ∈ back, Text.isBlank c = true) ∧
      tidy line = front ++ (parse line).head ++ back ++ rest ∧ StartsClause rest) ∧
    Text.joinWith [' '] (parse line).words = (parse line).head ∧
    ' ' ∉ (parse line).parent ∧
    (∀ i ∈ (parse line).interfaces, ' ' ∉ i ∧ ',' ∉ i) ∧
    ((parse line).head = [] →
      parse line = {} ∧ (parse line).name = [] ∧ (parse line).keyword = []) := by
  obtain ⟨hparent, hinterfaces⟩ := clauses_parse line
  refine ⟨?_, ?_, ?_, joinWith_words_parse line, ?_, ?_, ?_⟩
  · rw [head_parse]
    exact endsClear_headOf (tidy line)
  · rw [head_parse]
    exact clause_not_infix_headOf (tidy line)
  · rw [head_parse]
    exact exists_eq_headOf_append (tidy line)
  · rw [hparent]
    exact space_not_mem_parentOf _
  · intro i hi
    rw [hinterfaces] at hi
    exact mem_interfacesOf hi
  · intro h
    have hempty : parse line = {} := parse_of_headOf_eq_nil (by rwa [head_parse] at h)
    rw [hempty]
    exact ⟨rfl, rfl, rfl⟩

/-- A clause with nothing but a tab in front of it is a line without a head.  Of two keywords that
share a space, the one of the parent is left in the head. -/
theorem parse_shape_clauses_alone :
    parse "\t implements Shape".toList = {} ∧
    (parse "class extends implements Shape".toList).head = "class extends".toList ∧
    ¬ " extends ".toList <:+: (parse "class extends implements Shape".toList).head := by
  obtain ⟨-, -, -, -, -, -, hempty⟩ := parse_shape "\t implements Shape".toList
  obtain ⟨-, ⟨-, hparent, -⟩, -⟩ := parse_shape "class extends implements Shape".toList
  exact ⟨(hempty (by decide +kernel)).1, by decide +kernel, hparent⟩

end Heading

end DeclSurvey
