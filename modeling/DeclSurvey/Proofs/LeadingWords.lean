import DeclSurvey.Proofs.Declaration
import DeclSurvey.Proofs.HeadingShape

/-! # The words that a declaration starts with

The tally knows a declaration by the opening of its line.  The head of the same line is found by
stripping, tidying, cutting and trimming it.  None of these steps reaches into words in front of the
line, whatever stands behind them: clauses, clause marks, or nothing but spaces and semicolons.

* `Text.SpaceLed`: what follows words without running into the last one;
* `Heading.exists_tidy_words_append`, `Heading.exists_beforeClauses_words_append`: the steps, each
  of which keeps the words and leaves something of this kind behind them;
* `Heading.isPrefix_words_parse`: words in front of a line are the first words of its head;
* `Facts.head_opens_as_tallied`: the head of a file starts with the opening that was tallied. -/

namespace DeclSurvey

namespace Text

/-- The text is empty or starts with a space, so it does not continue the word in front of it. -/
def SpaceLed (t : Text) : Prop :=
  ∀ c ∈ t.head?, c = ' '

namespace SpaceLed
variable {t : Text} (h : SpaceLed t)
include h

theorem of_isPrefix {u : Text} (hu : u <+: t) : SpaceLed u := by
  obtain ⟨rest, rfl⟩ := hu
  intro c hc
  apply h c
  rw [List.head?_append, Option.mem_def.1 hc]
  rfl

theorem breaks {word : Text} (hword : ' ' ∉ word) : Breaks word t := by
  intro c hc
  rw [h c hc]
  exact hword

/-- Of the spaces in front, one at least is left. -/
theorem replaceAll_doubled : SpaceLed (replaceAll [' ', ' '] [' '] t) := by
  cases t with
  | nil => exact h
  | cons c t =>
    have hc : c = ' ' := h c rfl
    subst hc
    unfold replaceAll
    rw [replaceFrom]
    split
    · intro c hc
      exact (Option.some.inj hc).symm
    · intro c hc
      exact (Option.some.inj hc).symm

end SpaceLed

end Text

namespace Heading

/-! ### Words in front of a line -/

section LeadingWords
variable {ws : List Text} (hne : ws ≠ []) (hws : ∀ w ∈ ws, IsWord w)
  {rest : Text} (hrest : Text.SpaceLed rest)
include hws hrest

/-- Tidying keeps the words in front. -/
theorem exists_tidy_words_append (hne : ws ≠ []) :
    ∃ u, Text.SpaceLed u ∧
      tidy (Text.joinWith [' '] ws ++ rest) = Text.joinWith [' '] ws ++ u := by
  have hclear : Text.EndsClear Text.isPadding (Text.joinWith [' '] ws) :=
    Text.endsClear_spaced fun w hw => ⟨(hws w hw).ne_nil, (hws w hw).isItem.not_isPadding⟩
  have hspaced := spaced_ne_nil hne fun w hw => (hws w hw).isItem
  obtain ⟨u, hu, hstrip⟩ := Text.exists_trimBy_append hspaced hclear rest
  have hled : Text.SpaceLed u := hrest.of_isPrefix hu
  -- No space is doubled between the words, so the pass over doubled spaces starts behind them.
  have hpass : Text.NoStart [' ', ' '] (Text.joinWith [' '] ws) u :=
    Text.noStart_spaced List.not_mem_nil (fun w hw => (hws w hw).isItem.space_not_mem)
      (fun w hw => (hws w (List.mem_of_mem_tail hw)).ne_nil) (hled.breaks List.not_mem_nil)
  refine ⟨_, hled.replaceAll_doubled, ?_⟩
  unfold tidy Text.strip
  rw [hstrip]
  exact Text.replaceAll_append hpass [' ']

/-- No clause starts before the words in front are over. -/
theorem exists_beforeClauses_words_append :
    ∃ u, Text.SpaceLed u ∧
      beforeClauses (Text.joinWith [' '] ws ++ rest) = Text.joinWith [' '] ws ++ u := by
  have hmark : Text.beforeChar clauseMark (Text.joinWith [' '] ws ++ rest) =
      Text.joinWith [' '] ws ++ Text.beforeChar clauseMark rest := by
    refine List.takeWhile_append_of_pos fun c hc => ?_
    simpa using fun heq : c = clauseMark => clauseMark_not_mem_spaced hws (heq ▸ hc)
  -- Each cut leaves the start of what the one before it has left.
  have hfirst : Text.SpaceLed (Text.beforeChar clauseMark rest) :=
    hrest.of_isPrefix (List.takeWhile_prefix _)
  have hsecond := hfirst.of_isPrefix
    (Text.beforeFirst_isPrefix (' ' :: interfacesWord) (Text.beforeChar clauseMark rest))
  refine ⟨_, hsecond.of_isPrefix (Text.beforeFirst_isPrefix (' ' :: parentWord) _), ?_⟩
  unfold beforeClauses beforeInterfaces
  rw [hmark,
    Text.beforeFirst_append_of_noStart
      ((noStart_clause hws).2 (hfirst.breaks space_not_mem_interfacesKeyword)),
    Text.beforeFirst_append_of_noStart
      ((noStart_clause hws).1 (hsecond.breaks space_not_mem_parentKeyword))]

include hne

/-- Words in front of a line are in front of its head. -/
theorem exists_head_parse_words_append :
    ∃ u, Text.SpaceLed u ∧
      (parse (Text.joinWith [' '] ws ++ rest)).head = Text.joinWith [' '] ws ++ u := by
  obtain ⟨t, ht, htidy⟩ := exists_tidy_words_append hws hrest hne
  obtain ⟨u, hu, hcut⟩ := exists_beforeClauses_words_append hws ht
  have hclear : Text.EndsClear Text.isBlank (Text.joinWith [' '] ws) :=
    Text.endsClear_spaced fun w hw => ⟨(hws w hw).ne_nil, (hws w hw).not_blank⟩
  have hspaced := spaced_ne_nil hne fun w hw => (hws w hw).isItem
  obtain ⟨v, hv, htrim⟩ := Text.exists_trimBy_append hspaced hclear u
  refine ⟨v, hu.of_isPrefix hv, ?_⟩
  rw [head_parse, htidy, headOf_eq_trim, hcut]
  exact htrim

theorem isPrefix_head_parse :
    Text.joinWith [' '] ws <+: (parse (Text.joinWith [' '] ws ++ rest)).head := by
  obtain ⟨u, -, hhead⟩ := exists_head_parse_words_append hne hws hrest
  exact ⟨u, hhead.symm⟩

theorem head_parse_ne_nil : (parse (Text.joinWith [' '] ws ++ rest)).head ≠ [] := by
  intro hnil
  have hfront := isPrefix_head_parse hne hws hrest
  rw [hnil] at hfront
  exact spaced_ne_nil hne (fun w hw => (hws w hw).isItem) (List.prefix_nil.1 hfront)

/-- Words in front of a line are the first words of its head. -/
theorem isPrefix_words_parse : ws <+: (parse (Text.joinWith [' '] ws ++ rest)).words := by
  obtain ⟨u, hu, hhead⟩ := exists_head_parse_words_append hne hws hrest
  have hsplit : Text.splitChar ' ' (Text.joinWith [' '] ws) = ws :=
    Text.splitChar_joinWith hne fun w hw => (hws w hw).isItem.space_not_mem
  rw [words_parse_eq (head_parse_ne_nil hne hws hrest), hhead]
  -- Behind the words the head ends, or a space divides them from the next one.
  cases u with
  | nil => exact ⟨[], by rw [List.append_nil, List.append_nil, hsplit]⟩
  | cons c u =>
    have hc : c = ' ' := hu c rfl
    rw [hc, Text.splitChar_append_sep, hsplit]
    exact List.prefix_append ws _

end LeadingWords

end Heading

/-! ### Openings in front of a line -/

namespace Signature

/-- An opening is its words with a space behind the last one. -/
theorem opening_eq (s : Signature) : s.opening = Text.joinWith [' '] s.words ++ [' '] := by
  cases s <;> rfl

theorem words_ne_nil (s : Signature) : s.words ≠ [] := by
  cases s <;> decide

/-- Declarations are tallied under the first word of their opening. -/
theorem keyword_eq (s : Signature) : s.keyword = Text.beforeChar ' ' s.opening := by
  cases s <;> rfl

theorem keyword_isPrefix (s : Signature) : s.keyword <+: Text.joinWith [' '] s.words := by
  cases s <;> decide

end Signature

/-- The head of a line that starts with an opening starts with the words of the opening, and it has
a name. -/
theorem Heading.parse_of_opening {s : Signature} {line : Text} (h : s.opening <+: line) :
    Text.joinWith [' '] s.words <+: (parse line).head ∧ s.words <+: (parse line).words ∧
    (parse line).name ≠ [] := by
  obtain ⟨rest, rfl⟩ := h
  have hws : ∀ w ∈ s.words, IsWord w := fun w hw => Signature.isWord_of_mem_words hw
  have hled : Text.SpaceLed (' ' :: rest) := by
    intro c hc
    exact (Option.some.inj hc).symm
  rw [Signature.opening_eq, List.append_assoc, List.singleton_append]
  refine ⟨isPrefix_head_parse s.words_ne_nil hws hled, ?_, ?_⟩
  · exact isPrefix_words_parse s.words_ne_nil hws hled
  · exact name_parse_ne_nil (head_parse_ne_nil s.words_ne_nil hws hled)

namespace Facts

/-! ### The file -/

/-- A typical file with a declaration line tallies that line and no other. -/
theorem tally_of_declaration {source raw : Text} {s : Signature}
    (htypical : (ofSource source).isAtypical = false) (hmem : raw ∈ Text.lines source)
    (hopening : s.opening <+: Line.clean raw) : (ofSource source).tally = [(s, 1)] := by
  apply Tally.eq_singleton (Tally.ordered_ofLines _) htypical
  show 0 < Tally.count s (Tally.ofLines (classify source))
  rw [Tally.count_ofLines, Tally.countP_opens_classify]
  exact List.countP_pos_iff.2 ⟨raw, hmem, List.isPrefixOf_iff_prefix.2 hopening⟩

/-- If the last line of a typical file that starts with a letter is a declaration, then the head of
the file starts with the words of the opening of that line, the tally has one entry, which is the
first of these words with a count of 1, and there is a name.  So a file that is tallied as abstract
or final says so in its head. -/
theorem head_opens_as_tallied (source raw : Text) (s : Signature)
    (htypical : (ofSource source).isAtypical = false)
    (hlast : ((Text.lines source).filter Text.startsWithLetter).getLast? = some raw)
    (hdecl : (Line.ofRaw raw).kind = .declaration s) :
    (Text.joinWith [' '] s.words <+: (ofSource source).fullName ∧
      s.words <+: (ofSource source).heading.words) ∧
    (ofSource source).tally.map (fun e => (e.1.keyword, e.2)) =
      [(Text.beforeChar ' ' s.opening, 1)] ∧
    (ofSource source).name ≠ [] ∧
    ((∃ e ∈ (ofSource source).tally, e.1.keyword = "abstract".toList) →
      (ofSource source).isExplicitAbstract = true) ∧
    ((∃ e ∈ (ofSource source).tally, e.1.keyword = "final".toList) →
      (ofSource source).isFinal = true) := by
  have hopening : s.opening <+: Line.clean raw := LineKind.ofText_eq_declaration_iff.1 hdecl
  have hmem : raw ∈ Text.lines source := (List.mem_filter.1 (List.mem_of_getLast? hlast)).1
  have htally := tally_of_declaration htypical hmem hopening
  have hparse := Heading.parse_of_opening hopening
  rw [← heading_ofSource htypical hlast] at hparse
  obtain ⟨hfront, hwords, hname⟩ := hparse
  have hkeyword : Text.occursIn s.keyword (ofSource source).fullName = true := by
    rw [Text.occursIn_iff]
    exact (s.keyword_isPrefix.trans hfront).isInfix
  have hkey : ∀ {key : Text}, (∃ e ∈ (ofSource source).tally, e.1.keyword = key) →
      s.keyword = key := by
    rintro key ⟨e, he, rfl⟩
    rw [htally, List.mem_singleton] at he
    rw [he]
  refine ⟨⟨hfront, hwords⟩, ?_, hname, ?_, ?_⟩
  · rw [htally, ← Signature.keyword_eq]
    rfl
  · intro h
    rwa [hkey h] at hkeyword
  · intro h
    rwa [hkey h] at hkeyword

/-- An abstract class without a name: a clause follows its opening at once. -/
theorem head_opens_as_tallied_unnamed :
    (ofSource "use A;\nabstract class  implements B;\n\x7b\n\x7d\n".toList).name ≠ [] ∧
    (ofSource "use A;\nabstract class  implements B;\n\x7b\n\x7d\n".toList).isExplicitAbstract =
      true := by
  obtain ⟨-, -, hname, habstract, -⟩ := head_opens_as_tallied
    "use A;\nabstract class  implements B;\n\x7b\n\x7d\n".toList
    "abstract class  implements B;".toList .abstractClass
    (by decide +kernel) (by decide +kernel) (by decide +kernel)
  exact ⟨hname, habstract (by decide +kernel)⟩

end Facts

end DeclSurvey
