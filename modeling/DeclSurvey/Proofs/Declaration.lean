import DeclSurvey.Proofs.Heading
import DeclSurvey.Proofs.Structure

/-! # The declared kind and name

The tally looks at every line, while kind and name are read off the last top-level line.  They
agree when the declaration is that line and has one word behind its opening.

* `Signature.words`: an opening as the words that it is made of;
* `Heading.words_parse` and `Heading.keyword_name_of_words`: an opening and one word up to the
  clauses are keyword and name;
* `Facts.heading_ofSource`: which line the heading of a typical file is read from. -/

namespace DeclSurvey

/-! ### Openings as words -/

namespace Signature

/-- The words of the opening. -/
def words : Signature → List Text
  | abstractClass => ["abstract".toList, "class".toList]
  | finalClass => ["final".toList, "class".toList]
  | plainClass => ["class".toList]
  | interface => ["interface".toList]
  | trait => ["trait".toList]
  | enum => ["enum".toList]

theorem opening_append (s : Signature) (w : Text) :
    s.opening ++ w = Text.joinWith [' '] (s.words ++ [w]) := by
  cases s <;> rfl

theorem isWord_of_mem_words {s : Signature} {w : Text} (h : w ∈ s.words) : Heading.IsWord w := by
  have hall : ∀ v ∈ s.words, Heading.IsWord v := by cases s <;> decide
  exact hall w h

theorem isWord_of_mem_words_append {s : Signature} {name : Text} (hname : Heading.IsWord name) :
    ∀ w ∈ s.words ++ [name], Heading.IsWord w := by
  intro w hw
  rcases List.mem_append.1 hw with hw | hw
  · exact isWord_of_mem_words hw
  · rw [List.mem_singleton.1 hw]
    exact hname

end Signature

namespace Heading

/-- The words of the head are those in front of the first clause. -/
theorem words_parse {line : Text} {ws : List Text} (hne : ws ≠ []) (hws : ∀ w ∈ ws, IsWord w)
    {rest : Text} (hrest : ClauseStart rest)
    (hline : tidy line = Text.joinWith [' '] ws ++ rest) : (parse line).words = ws := by
  have hsplit : Text.splitChar ' ' (Text.joinWith [' '] ws) = ws :=
    Text.splitChar_joinWith hne fun w hw => (hws w hw).isItem.space_not_mem
  have hhead := spaced_ne_nil hne fun w hw => (hws w hw).isItem
  unfold parse
  simp only [hline, headOf_append hws hrest]
  rw [if_neg (by simpa using hhead)]
  exact hsplit

/-- In a head of an opening and a name, keyword and name are where they are looked for. -/
theorem keyword_name_of_words {h : Heading} {s : Signature} {name : Text}
    (hwords : h.words = s.words ++ [name]) :
    h.keyword = s.declKind.keyword ∧ h.name = name := by
  unfold Heading.keyword Heading.name
  rw [hwords]
  cases s <;> exact ⟨rfl, rfl⟩

end Heading

namespace Facts

/-! ### The line of the heading -/

/-- The heading of a typical file is read from its last line that starts with a letter. -/
theorem heading_ofSource {source raw : Text} (htypical : (ofSource source).isAtypical = false)
    (hlast : ((Text.lines source).filter Text.startsWithLetter).getLast? = some raw) :
    (ofSource source).heading = Heading.parse (Line.clean raw) := by
  show headingOf (structural (classify source)) = _
  rw [structural_eq_written htypical]
  unfold headingOf
  rw [classify, filter_topLevel_written, List.getLast?_map, hlast]
  rfl

/-- If the last line that starts with a letter is a declaration, of an opening and one word up to
its clauses, then it is the only declaration of a typical file, and the kind and the name of the
file are those that it declares. -/
theorem kind_and_name_of_last_line (source raw name rest : Text) (s : Signature)
    (htypical : (ofSource source).isAtypical = false)
    (hlast : ((Text.lines source).filter Text.startsWithLetter).getLast? = some raw)
    (hdecl : s.opening <+: Line.clean raw)
    (hline : Heading.tidy (Line.clean raw) = s.opening ++ name ++ rest)
    (hname : Heading.IsWord name) (hrest : Heading.ClauseStart rest) :
    (ofSource source).tally = [(s, 1)] ∧
    (ofSource source).declKind? = some s.declKind ∧
    (ofSource source).name = name := by
  have hmem : raw ∈ Text.lines source :=
    (List.mem_filter.1 (List.mem_of_getLast? hlast)).1
  have htally : (ofSource source).tally = [(s, 1)] := by
    refine Tally.eq_singleton (Tally.ordered_ofLines _) htypical ?_
    rw [Tally.count_ofLines, Tally.countP_opens_classify]
    exact List.countP_pos_iff.2 ⟨raw, hmem, List.isPrefixOf_iff_prefix.2 hdecl⟩
  rw [Signature.opening_append] at hline
  have hwords := Heading.words_parse (by simp) (Signature.isWord_of_mem_words_append hname)
    hrest hline
  obtain ⟨hkeyword, hword⟩ := Heading.keyword_name_of_words hwords
  unfold declKind? Facts.keyword Facts.name
  rw [heading_ofSource htypical hlast, hkeyword, hword]
  exact ⟨htally, DeclKind.ofKeyword?_keyword s.declKind, rfl⟩

/-- A file with a namespace in front of its declaration and a constant behind it. -/
theorem kind_and_name_of_final_class :
    (ofSource "namespace App;\nfinal class Foo  extends Bar\n\x7b\n\tconst X;\n".toList).declKind? =
      some .class_ ∧
    (ofSource "namespace App;\nfinal class Foo  extends Bar\n\x7b\n\tconst X;\n".toList).name =
      "Foo".toList :=
  (kind_and_name_of_last_line _ "final class Foo  extends Bar".toList "Foo".toList
    " extends Bar".toList .finalClass (by decide +kernel) (by decide +kernel)
    (List.isPrefixOf_iff_prefix.1 (by decide)) (by decide +kernel) (by decide)
    (@Heading.ClauseStart.parent "Bar".toList
      (by rw [← List.isPrefixOf_iff_prefix]; decide))).2

/-- A typical file need not have a kind: a statement behind the declaration hides it. -/
theorem not_all_typical_kinds_declared :
    ¬ ∀ source : Text, (ofSource source).isAtypical = false →
      ∃ s : Signature, (∃ raw ∈ Text.lines source, s.opening <+: Line.clean raw) ∧
        (ofSource source).declKind? = some s.declKind := by
  intro h
  have htypical : (ofSource "class A\n\x7b\n\x7d\nreturn 1;\n".toList).isAtypical = false := by
    decide +kernel
  obtain ⟨s, -, hkind⟩ := h _ htypical
  have hnone : (ofSource "class A\n\x7b\n\x7d\nreturn 1;\n".toList).declKind? = none := by
    decide +kernel
  rw [hnone] at hkind
  cases hkind

end Facts

end DeclSurvey
