import DeclSurvey.Proofs.Heading

/-! # Declaration lines written from their parts

The parts of a declaration are words.  A line that is written from them is taken apart into the
same parts again.

* `Heading.Parts` holds the parts, `Heading.Parts.line` writes them;
* `Heading.parse_padded`: spaces and semicolons around a line do not matter;
* `Heading.parse_padded_line`: what is read from the line, as long as its clauses do not repeat
  its head. -/

namespace DeclSurvey

namespace Heading

/-! ### Parts -/

/-- The parts of a declaration. -/
structure Parts where
  /-- The words in front of the keyword. -/
  modifiers : List Text
  /-- The keyword. -/
  keyword : Text
  /-- The declared name. -/
  name : Text
  /-- The parent type. -/
  parent : Option Text
  /-- The interfaces. -/
  interfaces : List Text
  /-- Each modifier is a word. -/
  modifier_word : ∀ m ∈ modifiers, IsWord m
  /-- The keyword is a word. -/
  keyword_word : IsWord keyword
  /-- The name is a word. -/
  name_word : IsWord name
  /-- The parent is a word. -/
  parent_word : ∀ p ∈ parent, IsWord p
  /-- Each interface is a word. -/
  interface_word : ∀ i ∈ interfaces, IsWord i
  /-- No interface has a comma in it. -/
  interface_comma : ∀ i ∈ interfaces, ',' ∉ i

namespace Parts

/-- The words of the head. -/
def words (d : Parts) : List Text :=
  d.modifiers ++ [d.keyword, d.name]

/-- The head: the words in front of the clauses. -/
def head (d : Parts) : Text :=
  Text.joinWith [' '] d.words

/-- The clauses, each with a space in front of it. -/
def clauses (d : Parts) : Text :=
  clauseText d.parent d.interfaces

/-- The line of the declaration. -/
def line (d : Parts) : Text :=
  d.head ++ d.clauses

theorem isWord_of_mem_words (d : Parts) {w : Text} (h : w ∈ d.words) : IsWord w := by
  rcases List.mem_append.1 h with h | h
  · exact d.modifier_word w h
  · rcases List.mem_pair.1 h with rfl | rfl
    · exact d.keyword_word
    · exact d.name_word

theorem words_ne_nil (d : Parts) : d.words ≠ [] := by
  simp [words]

end Parts

theorem keyword_name_of_words_eq {h : Heading} {d : Parts} (hwords : h.words = d.words) :
    h.keyword = d.keyword ∧ h.name = d.name := by
  unfold keyword name
  rw [hwords]
  simp [Parts.words]

/-! ### Padding -/

theorem strip_padded {front back : Text} (hfront : ∀ c ∈ front, Text.isPadding c = true)
    (hback : ∀ c ∈ back, Text.isPadding c = true) (line : Text) :
    Text.strip (front ++ line ++ back) = Text.strip line := by
  unfold Text.strip
  rw [Text.trimBy_append_of_all hback, Text.trimBy_front_append hfront]

/-- Spaces and semicolons around a line do not matter. -/
theorem parse_padded {front back : Text} (hfront : ∀ c ∈ front, Text.isPadding c = true)
    (hback : ∀ c ∈ back, Text.isPadding c = true) (line : Text) :
    parse (front ++ line ++ back) = parse line := by
  unfold parse tidy
  rw [strip_padded hfront hback]

/-! ### Reading a line back -/

theorem drop_clauseText (parent : Option Text) (interfaces : List Text) :
    (clauseText parent interfaces).drop 1 =
      Text.joinWith [' '] (clauseWords parent interfaces) := by
  rw [clauseText_eq]
  split
  · next h => rw [h]; rfl
  · rfl

/-- A declaration line is taken apart into the parts that it is written from: the words of its
head, keyword and name among them, the parent, the interfaces in their order, and the clauses
without the space in front of them.  Spaces and semicolons around the line change nothing. -/
theorem parse_padded_line (d : Parts) (hhead : ¬ d.head <:+: d.clauses) (front back : Text)
    (hfront : ∀ c ∈ front, Text.isPadding c = true)
    (hback : ∀ c ∈ back, Text.isPadding c = true) :
    parse (front ++ d.line ++ back) =
      { head := d.head
        tail := d.clauses.drop 1
        words := d.modifiers ++ [d.keyword, d.name]
        parent := d.parent.getD []
        interfaces := d.interfaces } ∧
    (parse (front ++ d.line ++ back)).keyword = d.keyword ∧
    (parse (front ++ d.line ++ back)).name = d.name ∧
    parse (front ++ d.line ++ back) = parse d.line := by
  have hparse : parse d.line =
      { head := d.head
        tail := d.clauses.drop 1
        words := d.words
        parent := d.parent.getD []
        interfaces := d.interfaces } := by
    unfold Parts.clauses
    rw [drop_clauseText]
    exact parse_append_clauseText d.words_ne_nil (fun w hw => d.isWord_of_mem_words hw)
      d.parent_word d.interface_word d.interface_comma hhead
  have hwords : (parse d.line).words = d.words := by rw [hparse]
  obtain ⟨hkeyword, hname⟩ := keyword_name_of_words_eq hwords
  rw [parse_padded hfront hback]
  exact ⟨hparse, hkeyword, hname, rfl⟩

/-- An abstract class with a parent and an interface that is named twice. -/
def Parts.polygon : Parts where
  modifiers := ["abstract".toList]
  keyword := "class".toList
  name := "Polygon".toList
  parent := some "Form".toList
  interfaces := ["Closed".toList, "Convex".toList, "Closed".toList]
  modifier_word := by decide
  keyword_word := by decide
  name_word := by decide
  parent_word := by decide
  interface_word := by decide
  interface_comma := by decide

theorem parse_padded_line_polygon :
    parse "; abstract class Polygon extends Form implements Closed, Convex, Closed ;".toList =
      { head := "abstract class Polygon".toList
        tail := "extends Form implements Closed, Convex, Closed".toList
        words := ["abstract".toList, "class".toList, "Polygon".toList]
        parent := "Form".toList
        interfaces := ["Closed".toList, "Convex".toList, "Closed".toList] } := by
  have hline : "; abstract class Polygon extends Form implements Closed, Convex, Closed ;".toList =
      "; ".toList ++ Parts.polygon.line ++ " ;".toList := by decide +kernel
  have hhead : ¬ Parts.polygon.head <:+: Parts.polygon.clauses :=
    Text.not_infix_of_occursIn (by decide +kernel)
  obtain ⟨hparse, -⟩ := parse_padded_line Parts.polygon hhead "; ".toList " ;".toList
    (List.all_eq_true.1 (by decide)) (List.all_eq_true.1 (by decide))
  rw [hline, hparse]
  decide +kernel

end Heading

end DeclSurvey
