import DeclSurvey.Proofs.Structure

/-! # Line by line

A source text is surveyed one line at a time.  The first part of this file says what the kind of a
line tells about its text, which all that is read off the lines relies on; the second part says
that texts put together at a newline are classified apart, so that what is counted adds up.

* `Line.kind_ofRaw_eq_method_iff`, `Line.kind_ofRaw_eq_blank_iff_forall`,
  `Line.isSome_namespaceName?_iff`: kinds in terms of the raw line or its cleaned text;
* `length_classify_eq_count`: the number of lines is that of the newlines, with one more for a last
  line that has none;
* `Tally.count_ofLines_append`: the tally of lines put together. -/

namespace DeclSurvey

/-! ### Kind and text of a line -/

namespace Line
variable {raw : Text}

/-- A line is blank if there is nothing but white space on it. -/
theorem kind_ofRaw_eq_blank_iff_forall :
    (ofRaw raw).kind = .blank ↔ ∀ c ∈ raw, Text.isBlank c = true := by
  rw [kind_ofRaw_eq_blank_iff, isWritten, List.any_eq_false]
  simp only [Bool.not_eq_true', Bool.not_eq_false]

theorem startsWithLetter_of_namespace_or_import
    (h : (ofRaw raw).kind = .namespaceStatement ∨ (ofRaw raw).kind = .importStatement) :
    Text.startsWithLetter raw = true := by
  rw [kind_ofRaw] at h
  rcases h with h | h
  · exact (LineKind.ofText_eq_namespaceStatement_iff.1 h).1
  · exact (LineKind.ofText_eq_importStatement_iff.1 h).1

/-- Every namespace statement names a namespace, be it the empty one, and no other line does. -/
theorem isSome_namespaceName?_iff :
    (ofRaw raw).namespaceName?.isSome = true ↔ (ofRaw raw).kind = .namespaceStatement := by
  unfold namespaceName?
  constructor
  · intro h
    split at h
    · next hkind => exact hkind
    · cases h
  · intro h
    -- The kind was given for the mark, so there is something behind it.
    obtain ⟨rest, hrest⟩ := (LineKind.ofText_eq_namespaceStatement_iff.1 h).2
    rw [h]
    show (Text.afterPrefix? namespaceMark (clean raw)).isSome = true
    rw [Text.afterPrefix?_eq_some_iff.2 hrest.symm]
    rfl

theorem kind_ofRaw_eq_method_iff :
    (ofRaw raw).kind = .method ↔
      (∀ s, (ofRaw raw).kind ≠ .declaration s) ∧
      (∃ c ∈ methodLeads, (ofRaw raw).text.head? = some c) ∧
      (functionMark <+: (ofRaw raw).text ∨ ' ' :: functionMark <:+: (ofRaw raw).text) := by
  rw [kind_ofRaw, text_ofRaw, LineKind.ofText_eq_method_iff, LineKind.isMethodText_iff]
  exact and_congr_right fun _ => and_comm

/-- The kind of a line and its text agree.  Word-led lines are those whose cleaned text starts with
a letter, and a line with a letter in its first column is one of them whatever cleaning takes off
it.  Blank lines are those of white space; namespace and import statements have a letter in their
first column, and exactly the former name a namespace; declarations are the lines with one of the
openings; methods are the other lines that start like a modifier and have the word `function` in
front or behind a space. -/
theorem kind_agrees_with_text (raw : Text) :
    ((ofRaw raw).kind.isWordLed = true ↔ Text.startsWithLetter (ofRaw raw).text = true) ∧
    (Text.startsWithLetter raw = true → (ofRaw raw).kind.isWordLed = true ∧
      (ofRaw raw).kind ∉ [.blank, .comment, .punctuation, .bodyOpen]) ∧
    ((ofRaw raw).kind = .blank ↔ ∀ c ∈ raw, Text.isBlank c = true) ∧
    ((ofRaw raw).kind = .namespaceStatement ∨ (ofRaw raw).kind = .importStatement →
      Text.startsWithLetter raw = true) ∧
    ((ofRaw raw).namespaceName?.isSome = true ↔ (ofRaw raw).kind = .namespaceStatement) ∧
    (∀ s : Signature, (ofRaw raw).kind = .declaration s ↔ s.opening <+: (ofRaw raw).text) ∧
    ((ofRaw raw).kind = .method ↔
      (∀ s, (ofRaw raw).kind ≠ .declaration s) ∧
      (∃ c ∈ ['a', 'p', 'f', 's'], (ofRaw raw).text.head? = some c) ∧
      ("function ".toList <+: (ofRaw raw).text ∨
        " function ".toList <:+: (ofRaw raw).text)) := by
  have hled : (ofRaw raw).kind.isWordLed = Text.startsWithLetter (ofRaw raw).text :=
    LineKind.isWordLed_ofText (Text.startsWithLetter raw) (clean raw)
  refine ⟨by rw [hled], ?_, kind_ofRaw_eq_blank_iff_forall,
    startsWithLetter_of_namespace_or_import, isSome_namespaceName?_iff,
    fun s => LineKind.ofText_eq_declaration_iff, kind_ofRaw_eq_method_iff⟩
  intro hletter
  have hword : (ofRaw raw).kind.isWordLed = true := by
    rw [hled]
    exact startsWithLetter_clean hletter
  refine ⟨hword, ?_⟩
  -- None of the four kinds is word-led.
  have hnone : ∀ k ∈ [LineKind.blank, .comment, .punctuation, .bodyOpen], k.isWordLed = false := by
    decide
  intro hmem
  rw [hnone _ hmem] at hword
  cases hword

/-- A method whose text loses semicolons when it is cleaned, and which stays word-led. -/
theorem kind_agrees_with_text_method :
    (ofRaw "final; static function a(); ".toList).kind.isWordLed = true ∧
      (ofRaw "final; static function a(); ".toList).kind = .method := by
  obtain ⟨-, hletter, -, -, -, -, hmethod⟩ :=
    kind_agrees_with_text "final; static function a(); ".toList
  refine ⟨(hletter (by decide)).1, hmethod.2 ⟨?_, ?_, ?_⟩⟩
  · intro s
    cases s <;> decide +kernel
  · exact ⟨'f', by decide, by decide +kernel⟩
  · right
    rw [← Text.occursIn_iff]
    decide +kernel

end Line

/-! ### Texts put together -/

theorem length_classify_eq_count (t : Text) :
    (classify t).length = t.count '\n' + if t ≠ [] ∧ t.getLast? ≠ some '\n' then 1 else 0 := by
  rw [classify_eq_map_cutLines, List.length_map, length_cutLines]
  -- The same condition, with its sides exchanged.
  simp only [ne_eq, ← not_or, ite_not]

theorem classify_append_newline (a b : Text) :
    classify (a ++ '\n' :: b) = classify (a ++ ['\n']) ++ classify b := by
  have happend := classify_append (a := a ++ ['\n']) (Or.inr ⟨a, rfl⟩) b
  rwa [List.append_assoc, List.singleton_append] at happend

theorem Tally.count_ofLines_append (s : Signature) (ls ms : List Line) :
    count s (ofLines (ls ++ ms)) = count s (ofLines ls) + count s (ofLines ms) := by
  simp only [count_ofLines, List.countP_append]

/-- Texts put together at a newline are classified apart.  A text has as many lines as newlines,
and one more if it is not empty and does not end with one.  So the number of lines and each count
of the tally add up, and the tally lists just the signatures that one of the parts has. -/
theorem Facts.counts_add_at_newline (a b : Text) :
    classify (a ++ '\n' :: b) = classify (a ++ ['\n']) ++ classify b ∧
    (∀ t : Text, (classify t).length =
      t.count '\n' + if t ≠ [] ∧ t.getLast? ≠ some '\n' then 1 else 0) ∧
    (ofSource (a ++ '\n' :: b)).lineCount =
      (ofSource (a ++ ['\n'])).lineCount + (ofSource b).lineCount ∧
    (∀ s, Tally.count s (ofSource (a ++ '\n' :: b)).tally =
      Tally.count s (ofSource (a ++ ['\n'])).tally + Tally.count s (ofSource b).tally) ∧
    ∀ s n, (s, n) ∈ (ofSource (a ++ '\n' :: b)).tally ↔
      n = Tally.count s (ofSource (a ++ ['\n'])).tally + Tally.count s (ofSource b).tally ∧
        0 < n := by
  have hclassify := classify_append_newline a b
  have hcount : ∀ s, Tally.count s (ofSource (a ++ '\n' :: b)).tally =
      Tally.count s (ofSource (a ++ ['\n'])).tally + Tally.count s (ofSource b).tally := by
    intro s
    show Tally.count s (Tally.ofLines (classify (a ++ '\n' :: b))) = _
    rw [hclassify]
    exact Tally.count_ofLines_append s _ _
  refine ⟨hclassify, length_classify_eq_count, ?_, hcount, ?_⟩
  · show (classify (a ++ '\n' :: b)).length = _
    rw [hclassify]
    exact List.length_append
  · intro s n
    rw [← hcount s, Tally.mem_iff_count (ordered_tally _)]
    exact and_congr_left fun _ => eq_comm

end DeclSurvey
