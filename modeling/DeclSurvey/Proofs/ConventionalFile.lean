import DeclSurvey.Proofs.Declaration
import DeclSurvey.Proofs.Lines

/-! # Files in conventional layout

A file in conventional layout is written from its parts, line by line, and the survey finds the
parts again.

* `ConventionalFile` holds the parts, with what they may not contain;
* `ConventionalFile.lines` writes the file, `LaidOut` allows blank lines anywhere;
* `ofRaw_namespaceLine`, `ofRaw_importLine`, … say what each written line is classified as;
* `filter_startsWithLetter_lines`, `countP_opensAny_lines`, `methodsOf_lines`,
  `collect_lines` go through the whole file once for each thing that is read from it;
* `ofLines_lines` puts the facts together. -/

namespace DeclSurvey

namespace ConventionalFile

/-! ### Parts -/

/-- A member with its indentation. -/
structure Member where
  /-- The white space in front. -/
  indent : Text
  /-- What is declared, without the semicolon. -/
  text : Text
  /-- The line is indented. -/
  indent_ne_nil : indent ≠ []
  /-- The indentation is white space. -/
  indent_blank : ∀ c ∈ indent, Text.isBlank c = true
  /-- A member starts with a letter. -/
  letter : Text.startsWithLetter text = true
  /-- A member does not end with a space or a semicolon. -/
  last : ∀ c ∈ text.getLast?, Text.isPadding c = false
  /-- Nothing in a member looks like a call. -/
  no_parenthesis : '(' ∉ text
  /-- Nothing in a member looks like a comment. -/
  no_comment : ¬ Members.commentMark <:+: text
  /-- A member does not mention the word `function`. -/
  no_function : ¬ functionMark <:+: text
  /-- A member does not start like a declaration. -/
  no_opening : ∀ s : Signature, ¬ s.opening <+: text

/-- A method with its indentation and the lines behind its signature. -/
structure Method where
  /-- The white space in front. -/
  indent : Text
  /-- The signature. -/
  signature : Text
  /-- The lines up to the next method. -/
  body : List Text
  /-- The line is indented. -/
  indent_ne_nil : indent ≠ []
  /-- The indentation is white space. -/
  indent_blank : ∀ c ∈ indent, Text.isBlank c = true
  /-- The signature does not end with white space. -/
  last : ∀ c ∈ signature.getLast?, Text.isBlank c = false
  /-- The signature is classified as one. -/
  kind : LineKind.ofText false signature = .method
  /-- The signature has a list of parameters. -/
  parenthesis : '(' ∈ signature
  /-- No line of the body starts with a letter in its first column. -/
  body_indented : ∀ raw ∈ body, Text.startsWithLetter raw = false
  /-- No line of the body is classified as a declaration. -/
  body_closed : ∀ raw ∈ body, ¬ Tally.opensAny (Line.ofRaw raw) = true
  /-- No line of the body is classified as a method. -/
  body_kind : ∀ raw ∈ body, (Line.ofRaw raw).kind ≠ .method

end ConventionalFile

open ConventionalFile in
/-- The parts of a file in conventional layout. -/
structure ConventionalFile where
  /-- The namespace. -/
  namespaceName : Text
  /-- The imported names. -/
  imports : List Text
  /-- The modifier and the keyword of the declaration. -/
  signature : Signature
  /-- The declared name. -/
  name : Text
  /-- The parent type. -/
  parent : Option Text
  /-- The interfaces. -/
  interfaces : List Text
  /-- The members, which come first in the body. -/
  members : List Member
  /-- The methods. -/
  methods : List Method
  /-- A namespace has no semicolon. -/
  namespace_plain : ';' ∉ namespaceName
  /-- A namespace does not mention the word `function`. -/
  namespace_function : ¬ functionMark <:+: namespaceName
  /-- Something is imported. -/
  import_ne_nil : ∀ x ∈ imports, x ≠ []
  /-- An import has no semicolon. -/
  import_plain : ∀ x ∈ imports, ';' ∉ x
  /-- An import does not hold another one. -/
  import_once : ∀ x ∈ imports, ¬ importMark <:+: x
  /-- An import does not mention the word `function`. -/
  import_function : ∀ x ∈ imports, ¬ functionMark <:+: x
  /-- The name is a word. -/
  name_word : Heading.IsWord name
  /-- The parent is a word. -/
  parent_word : ∀ p ∈ parent, Heading.IsWord p
  /-- Each interface is a word. -/
  interface_word : ∀ i ∈ interfaces, Heading.IsWord i
  /-- No interface has a comma in it. -/
  interface_comma : ∀ i ∈ interfaces, ',' ∉ i
  /-- The declaration does not mention the word `function`. -/
  declaration_function :
    ¬ functionMark <:+: signature.opening ++ name ++ Heading.clauseText parent interfaces
  /-- The clauses do not repeat the head. -/
  head_once : ¬ signature.opening ++ name <:+: Heading.clauseText parent interfaces

namespace ConventionalFile

/-! ### The lines of a file -/

/-- The line that opens a file. -/
def openLine : Text := "<?php".toList

/-- The line that closes a body. -/
def closeLine : Text := "\x7d".toList

/-- The line of an import. -/
def importLine (x : Text) : Text :=
  importMark ++ x ++ [';']

/-- The line of a member. -/
def Member.line (m : Member) : Text :=
  m.indent ++ (m.text ++ [';'])

/-- The text under which a member is reported: an open list is closed. -/
def Member.reported (m : Member) : Text :=
  if m.text.getLast? = some '[' then m.text ++ "...]".toList else m.text

/-- The line of a signature. -/
def Method.line (m : Method) : Text :=
  m.indent ++ m.signature

/-- The lines of a method. -/
def Method.lines (m : Method) : List Text :=
  m.line :: m.body

variable (f : ConventionalFile)

/-- The line of the namespace. -/
def namespaceLine : Text :=
  namespaceMark ++ f.namespaceName ++ [';']

/-- The head of the declaration. -/
def head : Text :=
  f.signature.opening ++ f.name

/-- The line of the declaration. -/
def declarationLine : Text :=
  f.head ++ Heading.clauseText f.parent f.interfaces

/-- The lines in front of the body. -/
def frontLines : List Text :=
  openLine :: f.namespaceLine :: (f.imports.map importLine ++ [f.declarationLine])

/-- The lines of the body. -/
def bodyLines : List Text :=
  f.members.map Member.line ++ (f.methods.flatMap Method.lines ++ [closeLine])

/-- The lines of the file. -/
def lines : List Text :=
  f.frontLines ++ bodyOpenMark :: f.bodyLines

/-- The source is the file with blank lines anywhere. -/
def LaidOut (source : Text) : Prop :=
  (Text.lines source).filter Line.isWritten = f.lines.filter Line.isWritten

/-! ### Classification of the lines -/

/-- A statement in the first column loses its semicolon. -/
theorem clean_statement {mark x : Text} (hletter : Text.startsWithLetter mark = true)
    (hmark : ';' ∉ mark) (hx : ';' ∉ x) : Line.clean (mark ++ x ++ [';']) = mark ++ x := by
  have hfront : Text.startsWithLetter (mark ++ x ++ [';']) = true :=
    LineKind.startsWithLetter_of_front hletter ⟨x ++ [';'], by simp⟩
  have hclear : Text.EndsClear Text.isBlank (mark ++ x ++ [';']) := by
    refine ⟨?_, Text.last_concat (by decide) (mark ++ x)⟩
    intro c hc
    exact Text.isBlank_eq_false_of_isAlpha (Text.isAlpha_head hfront hc)
  have hkept : (mark ++ x).filter (· != ';') = mark ++ x := by
    rw [List.filter_eq_self]
    intro c hc
    rw [bne_iff_ne]
    intro hsemi
    rw [hsemi] at hc
    rcases List.mem_append.1 hc with hc | hc
    · exact hmark hc
    · exact hx hc
  unfold Line.clean Text.trim
  rw [if_pos hfront, Text.trimBy_of_endsClear hclear, List.filter_append, hkept]
  simp

theorem ofRaw_namespaceLine : Line.ofRaw f.namespaceLine =
    { text := namespaceMark ++ f.namespaceName
      topLevel := true
      kind := .namespaceStatement } := by
  have hclean : Line.clean f.namespaceLine = namespaceMark ++ f.namespaceName :=
    clean_statement (by decide) (by decide) f.namespace_plain
  have hkind : LineKind.ofText true (namespaceMark ++ f.namespaceName) = .namespaceStatement :=
    LineKind.ofText_eq_namespaceStatement_iff.2 ⟨rfl, List.prefix_append namespaceMark _⟩
  exact Line.ofRaw_eq_mk rfl hclean hkind

theorem ofRaw_importLine {x : Text} (hx : ';' ∉ x) : Line.ofRaw (importLine x) =
    { text := importMark ++ x, topLevel := true, kind := .importStatement } := by
  have hclean : Line.clean (importLine x) = importMark ++ x :=
    clean_statement (by decide) (by decide) hx
  have hkind : LineKind.ofText true (importMark ++ x) = .importStatement :=
    LineKind.ofText_eq_importStatement_iff.2 ⟨rfl, List.prefix_append importMark x⟩
  exact Line.ofRaw_eq_mk rfl hclean hkind

theorem opening_prefix_declarationLine : f.signature.opening <+: f.declarationLine :=
  ⟨f.name ++ Heading.clauseText f.parent f.interfaces, by simp [declarationLine, head]⟩

theorem startsWithLetter_declarationLine : Text.startsWithLetter f.declarationLine = true :=
  LineKind.startsWithLetter_of_front (Signature.startsWithLetter_opening f.signature)
    f.opening_prefix_declarationLine

/-- A declaration line is clean as it is written. -/
theorem clean_declarationLine : Line.clean f.declarationLine = f.declarationLine := by
  have hitems := Heading.isItem_append_clauseWords
    (Signature.isWord_of_mem_words_append (s := f.signature) f.name_word)
    f.parent_word f.interface_word
  have hspaced : f.declarationLine = Text.joinWith [' ']
      (f.signature.words ++ [f.name] ++ Heading.clauseWords f.parent f.interfaces) := by
    unfold declarationLine head
    rw [Signature.opening_append]
    exact Heading.append_clauseText (by simp) f.parent f.interfaces
  have htrim : Text.trim f.declarationLine = f.declarationLine := by
    rw [hspaced]
    exact Heading.trim_spaced hitems
  unfold Line.clean
  rw [if_pos f.startsWithLetter_declarationLine, htrim, List.filter_eq_self]
  intro c hc
  rw [bne_iff_ne]
  intro hsemi
  rw [hsemi, hspaced] at hc
  rcases Text.mem_joinWith hc with hc | ⟨w, hw, hc⟩
  · exact absurd hc (by decide)
  · exact ((hitems w hw).clear ';' hc).2 rfl

theorem ofRaw_declarationLine : Line.ofRaw f.declarationLine =
    { text := f.declarationLine, topLevel := true, kind := .declaration f.signature } :=
  Line.ofRaw_eq_mk f.startsWithLetter_declarationLine f.clean_declarationLine
    (LineKind.ofText_eq_declaration_iff.2 f.opening_prefix_declarationLine)

theorem Member.indented (m : Member) : Line.Indented m.line m.indent (m.text ++ [';']) [] := by
  refine ⟨by simp [Member.line], m.indent_ne_nil, m.indent_blank, by simp, ?_,
    Text.last_concat (by decide) m.text⟩
  exact LineKind.startsWithLetter_of_front m.letter (List.prefix_append _ _)

theorem Method.indented (m : Method) : Line.Indented m.line m.indent m.signature [] := by
  refine ⟨by simp [Method.line], m.indent_ne_nil, m.indent_blank, by simp, ?_, m.last⟩
  exact LineKind.startsWithLetter_of_isMethodText (LineKind.isMethodText_of_ofText m.kind)

theorem Method.ofRaw_line (m : Method) : Line.ofRaw m.line =
    { text := m.signature, topLevel := false, kind := .method } := by
  rw [m.indented.ofRaw_eq, m.kind]

/-- What a member line is not: it opens no declaration and is no method. -/
theorem Member.kind_line (m : Member) :
    ¬ Tally.opensAny (Line.ofRaw m.line) = true ∧ (Line.ofRaw m.line).kind ≠ .method := by
  rw [m.indented.ofRaw_eq, Tally.opensAny_iff]
  constructor
  · intro hany
    obtain ⟨s, hs⟩ := hany
    have hprefix : s.opening <+: m.text ++ [';'] := LineKind.ofText_eq_declaration_iff.1 hs
    rcases List.prefix_concat_iff.1 hprefix with heq | hprefix
    · -- No opening ends with a semicolon.
      have hmem : ';' ∈ s.opening := by simp [heq]
      exact absurd hmem (by cases s <;> decide)
    · exact m.no_opening s hprefix
  · intro hkind
    have hocc := LineKind.functionMark_infix_of_isMethodText
      (LineKind.isMethodText_of_ofText hkind)
    apply m.no_function
    exact Text.infix_of_infix_append (by decide) (Text.disjoint_of_all (by decide)) hocc

theorem mem_frontLines {raw : Text} (h : raw ∈ f.frontLines) :
    raw = openLine ∨ raw = f.namespaceLine ∨ (∃ x ∈ f.imports, raw = importLine x) ∨
      raw = f.declarationLine := by
  simp only [frontLines, List.mem_cons, List.mem_append, List.mem_map, List.not_mem_nil,
    or_false] at h
  rcases h with rfl | rfl | ⟨x, hx, rfl⟩ | rfl
  · exact Or.inl rfl
  · exact Or.inr (Or.inl rfl)
  · exact Or.inr (Or.inr (Or.inl ⟨x, hx, rfl⟩))
  · exact Or.inr (Or.inr (Or.inr rfl))

theorem mem_bodyLines {raw : Text} (h : raw ∈ f.bodyLines) :
    (∃ m ∈ f.members, raw = m.line) ∨ (∃ m ∈ f.methods, raw ∈ m.lines) ∨ raw = closeLine := by
  simp only [bodyLines, List.mem_append, List.mem_map, List.mem_flatMap, List.mem_singleton] at h
  rcases h with ⟨m, hm, rfl⟩ | ⟨m, hm, hraw⟩ | rfl
  · exact Or.inl ⟨m, hm, rfl⟩
  · exact Or.inr (Or.inl ⟨m, hm, hraw⟩)
  · exact Or.inr (Or.inr rfl)

/-! ### Lines in the first column -/

theorem startsWithLetter_of_mem_bodyLines {raw : Text} (h : raw ∈ f.bodyLines) :
    Text.startsWithLetter raw = false := by
  rcases f.mem_bodyLines h with ⟨m, -, rfl⟩ | ⟨m, -, hraw⟩ | rfl
  · exact m.indented.startsWithLetter_eq
  · rcases List.mem_cons.1 hraw with rfl | hraw
    · exact m.indented.startsWithLetter_eq
    · exact m.body_indented raw hraw
  · rfl

theorem filter_startsWithLetter_lines : f.lines.filter Text.startsWithLetter =
    f.namespaceLine :: (f.imports.map importLine ++ [f.declarationLine]) := by
  have hbody : (bodyOpenMark :: f.bodyLines).filter Text.startsWithLetter = [] := by
    rw [List.filter_eq_nil_iff]
    intro raw hraw
    rw [Bool.not_eq_true]
    rcases List.mem_cons.1 hraw with rfl | hraw
    · rfl
    · exact f.startsWithLetter_of_mem_bodyLines hraw
  have himports : (f.imports.map importLine).filter Text.startsWithLetter =
      f.imports.map importLine := by
    rw [List.filter_eq_self]
    intro raw hraw
    obtain ⟨x, -, rfl⟩ := List.mem_map.1 hraw
    rfl
  have hdecl : [f.declarationLine].filter Text.startsWithLetter = [f.declarationLine] :=
    List.filter_cons_of_pos f.startsWithLetter_declarationLine
  unfold lines frontLines
  rw [List.filter_append, hbody, List.append_nil, List.filter_cons_of_neg (by decide),
    List.filter_cons_of_pos rfl, List.filter_append, himports, hdecl]

/-! ### Declarations and methods -/

theorem not_opensAny_of_kind {l : Line} (h : ∀ s, l.kind ≠ .declaration s) :
    ¬ Tally.opensAny l = true := by
  rw [Tally.opensAny_iff]
  intro hany
  obtain ⟨s, hs⟩ := hany
  exact h s hs

theorem not_opensAny_of_mem_bodyLines {raw : Text} (h : raw ∈ f.bodyLines) :
    ¬ Tally.opensAny (Line.ofRaw raw) = true := by
  rcases f.mem_bodyLines h with ⟨m, -, rfl⟩ | ⟨m, -, hraw⟩ | rfl
  · exact m.kind_line.1
  · rcases List.mem_cons.1 hraw with rfl | hraw
    · exact not_opensAny_of_kind (by simp [m.ofRaw_line])
    · exact m.body_closed raw hraw
  · decide

theorem countP_opensAny_lines : (f.lines.map Line.ofRaw).countP Tally.opensAny = 1 := by
  have hbody : ((bodyOpenMark :: f.bodyLines).map Line.ofRaw).countP Tally.opensAny = 0 := by
    rw [List.countP_eq_zero]
    intro l hl
    obtain ⟨raw, hraw, rfl⟩ := List.mem_map.1 hl
    rcases List.mem_cons.1 hraw with rfl | hraw
    · decide
    · exact f.not_opensAny_of_mem_bodyLines hraw
  have himports : ((f.imports.map importLine).map Line.ofRaw).countP Tally.opensAny = 0 := by
    rw [List.countP_eq_zero]
    intro l hl
    obtain ⟨raw, hraw, rfl⟩ := List.mem_map.1 hl
    obtain ⟨x, hx, rfl⟩ := List.mem_map.1 hraw
    exact not_opensAny_of_kind (by simp [ofRaw_importLine (f.import_plain x hx)])
  -- What remains are the opening line, the namespace and the declaration.
  have hopen : ¬ Tally.opensAny (Line.ofRaw openLine) = true := by decide
  have hnamespace : ¬ Tally.opensAny (Line.ofRaw f.namespaceLine) = true :=
    not_opensAny_of_kind (by simp [ofRaw_namespaceLine])
  have hdecl : Tally.opensAny (Line.ofRaw f.declarationLine) = true := by
    rw [ofRaw_declarationLine, Tally.opensAny_iff]
    exact ⟨f.signature, rfl⟩
  unfold lines frontLines
  rw [List.map_append, List.countP_append, hbody, List.map_cons, List.map_cons,
    List.countP_cons_of_neg hopen, List.countP_cons_of_neg hnamespace, List.map_append,
    List.countP_append, himports, List.map_singleton, List.countP_singleton, if_pos hdecl]

/-- A line in front of the body neither opens it nor ends the scan, and is no method. -/
theorem kind_of_mem_frontLines {raw : Text} (h : raw ∈ f.frontLines) :
    (Line.ofRaw raw).kind ≠ .bodyOpen ∧ (Line.ofRaw raw).kind ≠ .method ∧
      ¬ functionMark <:+: (Line.ofRaw raw).text := by
  rcases f.mem_frontLines h with rfl | rfl | ⟨x, hx, rfl⟩ | rfl
  · rw [← Text.occursIn_iff]
    decide
  · rw [ofRaw_namespaceLine]
    refine ⟨by simp, by simp, fun hocc => f.namespace_function ?_⟩
    exact Text.infix_of_append_infix (by decide) hocc
  · rw [ofRaw_importLine (f.import_plain x hx)]
    refine ⟨by simp, by simp, fun hocc => f.import_function x hx ?_⟩
    exact Text.infix_of_append_infix (by decide) hocc
  · rw [ofRaw_declarationLine]
    exact ⟨by simp, by simp, f.declaration_function⟩

theorem Method.methodsOf_lines (m : Method) :
    Facts.methodsOf (m.lines.map Line.ofRaw) = [m.signature] := by
  have hbody : (m.body.map Line.ofRaw).filter (·.kind == .method) = [] := by
    rw [List.filter_eq_nil_iff]
    intro l hl
    obtain ⟨raw, hraw, rfl⟩ := List.mem_map.1 hl
    rw [beq_iff_eq]
    exact m.body_kind raw hraw
  unfold Facts.methodsOf Method.lines
  rw [List.map_cons, m.ofRaw_line, List.filter_cons_of_pos rfl, hbody]
  rfl

theorem methodsOf_append (ls ms : List Line) :
    Facts.methodsOf (ls ++ ms) = Facts.methodsOf ls ++ Facts.methodsOf ms := by
  unfold Facts.methodsOf
  rw [List.filter_append, List.map_append]

theorem methodsOf_eq_nil {raws : List Text} (h : ∀ raw ∈ raws, (Line.ofRaw raw).kind ≠ .method) :
    Facts.methodsOf (raws.map Line.ofRaw) = [] := by
  unfold Facts.methodsOf
  rw [List.map_eq_nil_iff, List.filter_eq_nil_iff]
  intro l hl
  obtain ⟨raw, hraw, rfl⟩ := List.mem_map.1 hl
  rw [beq_iff_eq]
  exact h raw hraw

theorem methodsOf_flatMap_lines (ms : List Method) :
    Facts.methodsOf ((ms.flatMap Method.lines).map Line.ofRaw) = ms.map Method.signature := by
  induction ms with
  | nil => rfl
  | cons m ms ih =>
    rw [List.flatMap_cons, List.map_append, methodsOf_append, m.methodsOf_lines, ih]
    rfl

theorem methodsOf_lines :
    Facts.methodsOf (f.lines.map Line.ofRaw) = f.methods.map Method.signature := by
  have hfront : Facts.methodsOf (f.frontLines.map Line.ofRaw) = [] :=
    methodsOf_eq_nil fun _ hraw => (f.kind_of_mem_frontLines hraw).2.1
  have hopen : Facts.methodsOf ([bodyOpenMark].map Line.ofRaw) = [] :=
    methodsOf_eq_nil (by decide)
  have hmembers : Facts.methodsOf ((f.members.map Member.line).map Line.ofRaw) = [] := by
    apply methodsOf_eq_nil
    intro raw hraw
    obtain ⟨m, -, rfl⟩ := List.mem_map.1 hraw
    exact m.kind_line.2
  have hclose : Facts.methodsOf ([closeLine].map Line.ofRaw) = [] :=
    methodsOf_eq_nil (by decide)
  unfold lines bodyLines
  rw [← List.singleton_append, List.map_append, List.map_append, List.map_append, List.map_append,
    methodsOf_append, methodsOf_append, methodsOf_append, methodsOf_append, hfront, hopen, hmembers,
    hclose, methodsOf_flatMap_lines]
  simp

/-! ### Members -/

/-- A member line is reported under the text of the member. -/
theorem Member.tidy_text (m : Member) : Members.tidy (m.text ++ [';']) = m.reported := by
  have hcomment : ¬ Members.commentMark <:+: m.text ++ [';'] := fun hocc =>
    m.no_comment (Text.infix_of_infix_append (by decide) (Text.disjoint_of_all (by decide)) hocc)
  have hclear : Text.EndsClear Text.isPadding m.text := by
    refine ⟨?_, m.last⟩
    intro c hc
    exact Text.isPadding_eq_false_of_isAlpha (Text.isAlpha_head m.letter hc)
  -- Of the line, only the semicolon is stripped.
  have hstrip : Text.strip (m.text ++ [';']) = m.text :=
    Text.trimBy_append_append hclear [] [';'] (by simp) (List.all_eq_true.1 (by decide))
  rw [Members.tidy_of_uncommented hcomment, hstrip]
  exact Members.closeList_eq m.text

/-- Inside the body, member lines are collected one after the other. -/
theorem collect_members_append (ms : List Member) (rest : List Line) :
    Members.collect .inside ((ms.map Member.line).map Line.ofRaw ++ rest) =
      ms.map Member.reported ++ Members.collect .inside rest := by
  induction ms with
  | nil => rfl
  | cons m ms ih =>
    have hparen : '(' ∉ m.text ++ [';'] := by simpa using m.no_parenthesis
    have hfun : ¬ Text.occursIn functionMark m.reported = true := by
      rw [Text.occursIn_iff]
      intro hocc
      refine m.no_function ?_
      unfold Member.reported at hocc
      split at hocc
      · exact Text.infix_of_infix_append (by decide) (Text.disjoint_of_all (by decide)) hocc
      · exact hocc
    have hmember := Members.member?_indented m.indented
    have hnext := Members.next_indented m.indented
    rw [if_neg hparen, m.tidy_text] at hmember hnext
    rw [if_neg hfun] at hnext
    rw [List.map_cons, List.map_cons, List.cons_append, Members.collect, hmember, hnext, ih]
    rfl

/-- The first signature ends the scan; without methods, the closing brace is passed over. -/
theorem collect_methods (ms : List Method) :
    Members.collect .inside ((ms.flatMap Method.lines ++ [closeLine]).map Line.ofRaw) = [] := by
  cases ms with
  | nil => decide
  | cons m ms =>
    -- A signature has a parenthesis, so it is no member, and the word that ends the scan.
    have hfun : functionMark <:+: m.signature :=
      LineKind.functionMark_infix_of_isMethodText (LineKind.isMethodText_of_ofText m.kind)
    have hmember := Members.member?_indented m.indented
    have hnext := Members.next_indented m.indented
    rw [if_pos m.parenthesis] at hmember hnext
    rw [if_pos (Text.occursIn_iff.2 hfun)] at hnext
    rw [List.flatMap_cons, Method.lines, List.cons_append, List.cons_append, List.map_cons,
      Members.collect, hmember, hnext, Members.collect_ended]
    rfl

theorem collect_lines :
    Members.collect .ahead (f.lines.map Line.ofRaw) = f.members.map Member.reported := by
  have hfront : ∀ l ∈ f.frontLines.map Line.ofRaw,
      l.kind ≠ .bodyOpen ∧ ¬ functionMark <:+: l.text := by
    intro l hl
    obtain ⟨raw, hraw, rfl⟩ := List.mem_map.1 hl
    obtain ⟨hopen, -, hfun⟩ := f.kind_of_mem_frontLines hraw
    exact ⟨hopen, hfun⟩
  have hmember : Members.Stage.ahead.member? (Line.ofRaw bodyOpenMark) = none := by decide
  have hnext : Members.Stage.ahead.next (Line.ofRaw bodyOpenMark) = .inside := by decide
  unfold lines bodyLines
  rw [List.map_append, Members.collect_front_append hfront, List.map_cons, Members.collect, hmember,
    hnext, List.map_append, collect_members_append, collect_methods]
  simp

/-- Closing a list adds nothing that members are sorted by. -/
theorem Member.occursIn_reported (m : Member) {mark : Text} (hne : mark ≠ [])
    (hmark : ∀ c ∈ mark, c ∉ "...]".toList) :
    Text.occursIn mark m.reported = Text.occursIn mark m.text := by
  unfold Member.reported
  split
  · rw [Bool.eq_iff_iff, Text.occursIn_iff, Text.occursIn_iff]
    constructor
    · exact Text.infix_of_infix_append hne hmark
    · intro hocc
      exact hocc.trans (List.prefix_append _ _).isInfix
  · rfl

/-- A member that says `const` is a constant. -/
def Member.isConstant (m : Member) : Bool :=
  Text.occursIn "const ".toList m.text

/-- A member that says `case`, and not `const`, is an enumeration case. -/
def Member.isCase (m : Member) : Bool :=
  !m.isConstant && Text.occursIn "case ".toList m.text

theorem Member.isConstant_reported (m : Member) :
    Members.isConstant m.reported = m.isConstant :=
  m.occursIn_reported (by decide) (Text.disjoint_of_all (by decide))

theorem Member.isCase_reported (m : Member) : Members.isCase m.reported = m.isCase := by
  unfold Members.isCase Member.isCase
  rw [m.isConstant_reported, m.occursIn_reported (by decide) (Text.disjoint_of_all (by decide))]

theorem scan_lines : Members.scan (f.lines.map Line.ofRaw) =
    { constants := (f.members.filter Member.isConstant).map Member.reported
      properties := (f.members.filter fun m => !m.isConstant && !m.isCase).map Member.reported
      cases := (f.members.filter Member.isCase).map Member.reported } := by
  rw [Members.scan_eq_sorted, f.collect_lines]
  unfold Members.sorted
  simp only [List.filter_map, Function.comp_def, Member.isConstant_reported,
    Member.isCase_reported]

/-! ### The whole file -/

theorem importsOf_lines :
    Facts.importsOf (Facts.written (f.lines.map Line.ofRaw)) = f.imports := by
  have himport : ∀ x ∈ f.imports, (Line.ofRaw (importLine x)).importName? = some x := by
    intro x hx
    have hname : Text.removeAll importMark (importMark ++ x) = x := by
      unfold Text.removeAll
      rw [Text.replaceAll_self_append (by decide),
        Text.replaceAll_of_not_infix (by decide) (f.import_once x hx)]
      rfl
    rw [ofRaw_importLine (f.import_plain x hx)]
    simp only [Line.importName?, hname]
    rw [if_neg (by simpa using f.import_ne_nil x hx)]
  have hmap : ((f.imports.map importLine).map Line.ofRaw).filterMap (·.importName?) =
      f.imports := by
    rw [List.map_map, List.filterMap_map]
    calc f.imports.filterMap ((·.importName?) ∘ (Line.ofRaw ∘ importLine))
        = f.imports.filterMap some := List.filterMap_congr himport
      _ = f.imports := List.filterMap_some
  unfold Facts.importsOf
  rw [Facts.filter_topLevel_written, f.filter_startsWithLetter_lines, List.map_cons,
    List.map_append, ofRaw_namespaceLine, List.filterMap_cons_none rfl, List.filterMap_append, hmap,
    List.map_singleton, ofRaw_declarationLine, List.filterMap_cons_none rfl, List.filterMap_nil,
    List.append_nil]

theorem namespaceName_lines :
    (f.lines.map Line.ofRaw).findSome? (·.namespaceName?) = some f.namespaceName := by
  have hopen : (Line.ofRaw openLine).namespaceName? = none := by decide
  -- The second line decides.
  have hname : (Line.ofRaw f.namespaceLine).namespaceName? = some f.namespaceName := by
    rw [ofRaw_namespaceLine]
    exact Text.afterPrefix?_eq_some_iff.2 rfl
  unfold lines frontLines
  rw [List.cons_append, List.cons_append, List.map_cons, List.map_cons, List.findSome?_cons, hopen,
    List.findSome?_cons, hname]

theorem headingOf_lines :
    Facts.headingOf (Facts.written (f.lines.map Line.ofRaw)) =
      { head := f.head
        tail := Text.joinWith [' '] (Heading.clauseWords f.parent f.interfaces)
        words := f.signature.words ++ [f.name]
        parent := f.parent.getD []
        interfaces := f.interfaces } := by
  -- The last line in the first column is the declaration.
  have hlast : ((f.lines.filter Text.startsWithLetter).map Line.ofRaw).getLast? =
      some (Line.ofRaw f.declarationLine) := by
    rw [f.filter_startsWithLetter_lines, List.map_cons, List.map_append, List.map_singleton,
      ← List.cons_append, List.getLast?_concat]
  have hhead : f.head = Text.joinWith [' '] (f.signature.words ++ [f.name]) :=
    Signature.opening_append f.signature f.name
  have honce := f.head_once
  have hparse := Heading.parse_append_clauseText (by simp)
    (Signature.isWord_of_mem_words_append (s := f.signature) f.name_word) f.parent_word
    f.interface_word f.interface_comma (by rwa [Signature.opening_append] at honce)
  unfold Facts.headingOf
  rw [Facts.filter_topLevel_written, hlast, ofRaw_declarationLine]
  rw [← hhead] at hparse
  exact hparse

theorem isAtypical_lines : (Tally.ofLines (f.lines.map Line.ofRaw)).isAtypical = false := by
  rw [Bool.eq_false_iff, ne_eq, Tally.isAtypical_iff (Tally.ordered_ofLines _),
    Tally.total_ofLines, f.countP_opensAny_lines]
  exact fun h => h rfl

theorem tally_lines : Tally.ofLines (f.lines.map Line.ofRaw) = [(f.signature, 1)] := by
  refine Tally.eq_singleton (Tally.ordered_ofLines _) f.isAtypical_lines ?_
  rw [Tally.count_ofLines]
  refine List.countP_pos_iff.2 ⟨Line.ofRaw f.declarationLine, ?_, ?_⟩
  · exact List.mem_map_of_mem (by simp [lines, frontLines])
  · rw [ofRaw_declarationLine, Tally.opens_iff]

/-- What the survey finds in the lines of a file. -/
theorem ofLines_lines : Facts.ofLines (f.lines.map Line.ofRaw) =
    { lineCount := f.lines.length
      namespaceName := f.namespaceName
      heading :=
        { head := f.head
          tail := Text.joinWith [' '] (Heading.clauseWords f.parent f.interfaces)
          words := f.signature.words ++ [f.name]
          parent := f.parent.getD []
          interfaces := f.interfaces }
      imports := f.imports
      members :=
        { constants := (f.members.filter Member.isConstant).map Member.reported
          properties := (f.members.filter fun m => !m.isConstant && !m.isCase).map Member.reported
          cases := (f.members.filter Member.isCase).map Member.reported }
      methods := f.methods.map Method.signature
      tally := [(f.signature, 1)] } := by
  have hmethods : Facts.methodsOf (Facts.written (f.lines.map Line.ofRaw)) =
      f.methods.map Method.signature := by
    rw [← f.methodsOf_lines]
    unfold Facts.methodsOf
    rw [Facts.filter_written]
    intro l hl hblank
    rw [hblank] at hl
    cases hl
  unfold Facts.ofLines
  rw [Facts.structural_eq_written f.isAtypical_lines, List.length_map, f.namespaceName_lines,
    f.headingOf_lines, f.importsOf_lines, Facts.scan_written, f.scan_lines, hmethods, f.tally_lines]
  rfl

end ConventionalFile

open ConventionalFile in
/-- A file in conventional layout is read back: its declaration, its imports and its members are
those that it was written from, each list in its order. -/
theorem Facts.ofSource_of_laidOut (f : ConventionalFile) (source : Text) (h : f.LaidOut source) :
    (ofSource source).isAtypical = false ∧
    (ofSource source).namespaceName = f.namespaceName ∧
    (ofSource source).imports = f.imports ∧
    (ofSource source).name = f.name ∧
    (ofSource source).keyword = f.signature.declKind.keyword ∧
    (ofSource source).fullName = f.signature.opening ++ f.name ∧
    (ofSource source).heading.parent = f.parent.getD [] ∧
    (ofSource source).heading.interfaces = f.interfaces ∧
    (ofSource source).members.constants =
      (f.members.filter Member.isConstant).map Member.reported ∧
    (ofSource source).members.cases = (f.members.filter Member.isCase).map Member.reported ∧
    (ofSource source).members.properties =
      (f.members.filter fun m => !m.isConstant && !m.isCase).map Member.reported ∧
    (ofSource source).methods = f.methods.map Method.signature ∧
    (ofSource source).tally = [(f.signature, 1)] ∧
    (ofSource source).lineCount = (Text.lines source).length := by
  -- Blank lines aside, the source has the lines of the file.
  have hwritten : written (classify source) = written (f.lines.map Line.ofRaw) := by
    unfold classify
    rw [written_map_ofRaw, written_map_ofRaw, h]
  have hfacts : ofSource source =
      { ofLines (f.lines.map Line.ofRaw) with lineCount := (classify source).length } :=
    ofLines_eq_of_written_eq hwritten
  have hwords : (ofSource source).heading.words = f.signature.words ++ [f.name] := by
    rw [hfacts, f.ofLines_lines]
  obtain ⟨hkeyword, hname⟩ := Heading.keyword_name_of_words hwords
  have hcount := lineCount_ofSource source
  rw [hfacts, f.ofLines_lines] at hkeyword hname hcount ⊢
  exact ⟨rfl, rfl, rfl, hname, hkeyword, rfl, rfl, rfl, rfl, rfl, rfl, rfl, rfl, hcount⟩

/-- A class with an import, a clause of each sort, two members and a method. -/
def ConventionalFile.circle : ConventionalFile where
  namespaceName := "App".toList
  imports := ["Lib\\Shape".toList]
  signature := .finalClass
  name := "Circle".toList
  parent := some "Shape".toList
  interfaces := ["Named".toList, "Drawn".toList]
  members :=
    [{  indent := "    ".toList
        text := "const SIDES = [".toList
        indent_ne_nil := by decide
        indent_blank := List.all_eq_true.1 (by decide)
        letter := rfl
        last := fun c hc => by cases hc; decide
        no_parenthesis := by decide
        no_comment := Text.not_infix_of_occursIn (by decide)
        no_function := Text.not_infix_of_occursIn (by decide)
        no_opening := fun s => by cases s <;> decide },
      { indent := "    ".toList
        text := "private int $radius".toList
        indent_ne_nil := by decide
        indent_blank := List.all_eq_true.1 (by decide)
        letter := rfl
        last := fun c hc => by cases hc; decide
        no_parenthesis := by decide
        no_comment := Text.not_infix_of_occursIn (by decide)
        no_function := Text.not_infix_of_occursIn (by decide)
        no_opening := fun s => by cases s <;> decide }]
  methods :=
    [{  indent := "    ".toList
        signature := "public function area(): int".toList
        body := ["    \x7b".toList, "        return 3;".toList, "    \x7d".toList]
        indent_ne_nil := by decide
        indent_blank := List.all_eq_true.1 (by decide)
        last := fun c hc => by cases hc; decide
        kind := by decide
        parenthesis := by decide
        body_indented := by decide
        body_closed := by decide
        body_kind := by decide }]
  namespace_plain := by decide
  namespace_function := Text.not_infix_of_occursIn (by decide)
  import_ne_nil := by decide
  import_plain := by decide
  import_once := List.forall_mem_singleton.2 (Text.not_infix_of_occursIn (by decide))
  import_function := List.forall_mem_singleton.2 (Text.not_infix_of_occursIn (by decide))
  name_word := by decide
  parent_word := by decide
  interface_word := by decide
  interface_comma := by decide
  declaration_function := Text.not_infix_of_occursIn (by decide)
  head_once := Text.not_infix_of_occursIn (by decide)

/-- The class with blank lines between its lines. -/
def ConventionalFile.circleSource : Text :=
  "<?php\n\nnamespace App;\n\nuse Lib\\Shape;\n\n".toList ++
    "final class Circle extends Shape implements Named, Drawn\n\x7b\n".toList ++
    "    const SIDES = [;\n    private int $radius;\n\n".toList ++
    "    public function area(): int\n    \x7b\n        return 3;\n    \x7d\n\x7d\n".toList

open ConventionalFile in
theorem Facts.ofSource_circle : circle.LaidOut circleSource ∧
    (ofSource circleSource).fullName = "final class Circle".toList ∧
    (ofSource circleSource).members.constants = ["const SIDES = [...]".toList] ∧
    (ofSource circleSource).methods = ["public function area(): int".toList] := by
  have hlaid : circle.LaidOut circleSource := by unfold LaidOut; decide +kernel
  obtain ⟨-, -, -, -, -, hfull, -, -, hconstants, -, -, hmethods, -, -⟩ :=
    ofSource_of_laidOut circle circleSource hlaid
  rw [hfull, hconstants, hmethods]
  exact ⟨hlaid, rfl, rfl, rfl⟩

/-- A class with the given lines in its body. -/
def ConventionalFile.classWith (body : Text) : Text :=
  "<?php\nnamespace App;\nclass A\n\x7b\n".toList ++ body ++ "\n\x7d\n".toList

open ConventionalFile in
/-- What the parts may not contain.  An imported function hides the members, and an import loses
each import mark; a member with a parenthesis or without a letter in front is not reported, one
with a comment is cut, one that mentions a function hides those behind it, and one that starts like
a declaration makes the file atypical; a signature without a parenthesis is a property as well. -/
theorem Facts.ofSource_unconventional :
    (ofSource ("<?php\nnamespace App;\nuse function strlen;\nclass A\n\x7b\n".toList ++
      "    const B = 1;\n\x7d\n".toList)).members.constants ≠ ["const B = 1".toList] ∧
    (ofSource "<?php\nnamespace App;\nuse Reuse as R;\nclass A\n\x7b\n\x7d\n".toList).imports ≠
      ["Reuse as R".toList] ∧
    (ofSource (classWith "    const B = (1);".toList)).members.constants ≠
      ["const B = (1)".toList] ∧
    (ofSource (classWith "    $b;".toList)).members.properties ≠ ["$b".toList] ∧
    (ofSource (classWith "    const B = 'a //b';".toList)).members.constants ≠
      ["const B = 'a //b'".toList] ∧
    (ofSource (classWith "    const B = 'function b';\n    const C = 2;".toList)).members.constants ≠
      ["const B = 'function b'".toList, "const C = 2".toList] ∧
    (ofSource (classWith "    class B;".toList)).isAtypical = true ∧
    (ofSource (classWith "    public function b".toList)).members.properties ≠ [] := by
  refine ⟨?_, ?_, ?_, ?_, ?_, ?_, ?_, ?_⟩ <;> decide +kernel

end DeclSurvey
