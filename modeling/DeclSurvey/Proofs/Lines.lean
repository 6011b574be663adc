import DeclSurvey.Proofs.Classification

/-! # Physical lines

Where a newline stands, a text falls into lines that are read apart.

* `Text.lines_append`: the lines of a text that ends with a newline come first, whatever follows;
* `Text.lines_cons`: a line and its newline;
* `Text.newline_not_mem_of_mem_lines`: no newline is left in a line;
* `Line.Alike`: raw lines that differ in white space at their ends alone, and are classified as the
  same line;
* `classify_append_line`: the classified lines around one that is known, with any of the three
  ways in which a line can end;
* `cutLines`: lines over any alphabet, with `cutLines_induction` from line to line and the number
  of lines in `length_cutLines`; `classify_eq_map_cutLines` gives the lines of a text in this form;
* `Line.Indented`: an indented line taken apart into indentation, text and blanks behind it. -/

namespace DeclSurvey

namespace Text

/-! ### Splitting at a newline -/

theorem linesFrom_append (read a b : Text) :
    linesFrom read (a ++ '\n' :: b) = linesFrom read (a ++ ['\n']) ++ lines b := by
  induction a generalizing read with
  | nil => rfl
  | cons c a ih =>
    rw [List.cons_append, List.cons_append, linesFrom, linesFrom]
    split
    · rw [ih, List.cons_append]
    · exact ih (c :: read)

/-- A text starts a line of its own. -/
def EndsLine (a : Text) : Prop :=
  a = [] ∨ ∃ u, a = u ++ ['\n']

/-- The lines of a text that ends with a newline come first, whatever follows. -/
theorem lines_append {a : Text} (ha : EndsLine a) (b : Text) :
    lines (a ++ b) = lines a ++ lines b := by
  rcases ha with rfl | ⟨u, rfl⟩
  · rfl
  · rw [List.append_assoc, List.singleton_append]
    exact linesFrom_append [] u b

theorem linesFrom_of_not_mem {x : Text} (hx : '\n' ∉ x) (read t : Text) :
    linesFrom read (x ++ t) = linesFrom (x.reverse ++ read) t := by
  induction x generalizing read with
  | nil => rfl
  | cons c x ih =>
    rw [List.mem_cons, not_or] at hx
    rw [List.cons_append, linesFrom, if_neg (Ne.symm hx.1), ih hx.2]
    simp

/-- A line without its newline, and without the carriage return in front of that. -/
def dropLastReturn (x : Text) : Text :=
  (dropReturn x.reverse).reverse

theorem lines_cons {x : Text} (hx : '\n' ∉ x) (t : Text) :
    lines (x ++ '\n' :: t) = dropLastReturn x :: lines t := by
  unfold lines
  rw [linesFrom_of_not_mem hx, List.append_nil, linesFrom, if_pos rfl]
  rfl

theorem lines_of_not_mem {x : Text} (hx : '\n' ∉ x) (hne : x ≠ []) : lines x = [x] := by
  have h := linesFrom_of_not_mem hx [] []
  rw [List.append_nil, List.append_nil, linesFrom, if_neg (by simpa using hne),
    List.reverse_reverse] at h
  exact h

theorem dropLastReturn_append (u : Text) : dropLastReturn (u ++ ['\r']) = u := by
  unfold dropLastReturn
  rw [List.reverse_append, List.reverse_singleton, List.singleton_append, dropReturn,
    List.reverse_reverse]

theorem dropReturn_eq_self_or (x : Text) : dropReturn x = x ∨ x = '\r' :: dropReturn x := by
  unfold dropReturn
  split
  · exact Or.inr rfl
  · exact Or.inl rfl

theorem dropLastReturn_eq_self_or (x : Text) :
    dropLastReturn x = x ∨ x = dropLastReturn x ++ ['\r'] := by
  unfold dropLastReturn
  rcases dropReturn_eq_self_or x.reverse with h | h
  · exact Or.inl (by rw [h, List.reverse_reverse])
  · refine Or.inr ?_
    rw [← List.reverse_cons, ← h, List.reverse_reverse]

theorem newline_not_mem_of_mem_linesFrom {read t line : Text} (hread : '\n' ∉ read)
    (h : line ∈ linesFrom read t) : '\n' ∉ line := by
  induction t generalizing read with
  | nil =>
    rw [linesFrom] at h
    split at h
    · cases h
    · rw [List.mem_singleton.1 h, List.mem_reverse]
      exact hread
  | cons c t ih =>
    rw [linesFrom] at h
    split at h
    · rcases List.mem_cons.1 h with rfl | h
      · rw [List.mem_reverse]
        intro hmem
        apply hread
        unfold dropReturn at hmem
        split at hmem
        · exact List.mem_cons_of_mem _ hmem
        · exact hmem
      · exact ih List.not_mem_nil h
    · next hc =>
      refine ih ?_ h
      rw [List.mem_cons, not_or]
      exact ⟨Ne.symm hc, hread⟩

/-- A physical line goes up to its newline. -/
theorem newline_not_mem_of_mem_lines {t line : Text} (h : line ∈ lines t) : '\n' ∉ line :=
  newline_not_mem_of_mem_linesFrom List.not_mem_nil h

end Text

/-! ### Lines that look alike -/

namespace Line

/-- Two raw lines that say the same: they are equal once they are trimmed, and both or neither
start with a letter. -/
structure Alike (x y : Text) : Prop where
  /-- Trimming leaves the same text. -/
  trim_eq : Text.trim x = Text.trim y
  /-- Both are top-level or none is. -/
  letter_eq : Text.startsWithLetter x = Text.startsWithLetter y

theorem Alike.refl (x : Text) : Alike x x :=
  ⟨rfl, rfl⟩

/-- Lines that look alike are the same line. -/
theorem ofRaw_eq_of_alike {x y : Text} (h : Alike x y) : ofRaw x = ofRaw y := by
  unfold ofRaw clean
  rw [h.trim_eq, h.letter_eq]

/-- White space behind a line does not change its looks. -/
theorem alike_append_blank (x : Text) {back : Text} (h : ∀ c ∈ back, Text.isBlank c = true) :
    Alike (x ++ back) x := by
  refine ⟨Text.trimBy_append_of_all h x, ?_⟩
  cases x with
  | cons c x => rfl
  | nil =>
    cases back with
    | nil => rfl
    | cons c back =>
      -- White space is no letter.
      show c.isAlpha = false
      rw [Bool.eq_false_iff]
      intro hletter
      have hblank := h c (by simp)
      rw [Text.isBlank_eq_false_of_isAlpha hletter] at hblank
      cases hblank

/-- A carriage return at the end of a line does not change its looks. -/
theorem alike_dropLastReturn (x : Text) : Alike x (Text.dropLastReturn x) := by
  rcases Text.dropLastReturn_eq_self_or x with h | h
  · rw [h]
    exact Alike.refl x
  · have hblank := alike_append_blank (Text.dropLastReturn x) (List.all_eq_true.1
      (show ['\r'].all Text.isBlank = true by decide))
    rwa [← h] at hblank

theorem ofRaw_dropLastReturn (x : Text) : ofRaw (Text.dropLastReturn x) = ofRaw x :=
  (ofRaw_eq_of_alike (alike_dropLastReturn x)).symm

end Line

/-! ### Lines of a source text -/

/-- What follows a physical line, with the rest of the text behind its end. -/
inductive LineEnd : Text → Text → Prop where
  /-- The text ends with the line. -/
  | endOfText : LineEnd [] []
  /-- A newline. -/
  | newline (rest : Text) : LineEnd ('\n' :: rest) rest
  /-- A newline with a carriage return. -/
  | returned (rest : Text) : LineEnd ('\r' :: '\n' :: rest) rest

theorem classify_append {a : Text} (ha : Text.EndsLine a) (b : Text) :
    classify (a ++ b) = classify a ++ classify b := by
  unfold classify
  rw [Text.lines_append ha, List.map_append]

/-- The classified lines around a line that is known. -/
theorem classify_append_line {a x b rest : Text} (ha : Text.EndsLine a) (hx : '\n' ∉ x)
    (hne : x ≠ []) (hb : LineEnd b rest) :
    classify (a ++ x ++ b) = classify a ++ Line.ofRaw x :: classify rest := by
  have hline : classify (x ++ b) = Line.ofRaw x :: classify rest := by
    unfold classify
    cases hb with
    | endOfText =>
      rw [List.append_nil, Text.lines_of_not_mem hx hne]
      rfl
    | newline =>
      rw [Text.lines_cons hx, List.map_cons, Line.ofRaw_dropLastReturn]
    | returned =>
      have hx' : '\n' ∉ x ++ ['\r'] := by simpa using hx
      have hsplit : x ++ '\r' :: '\n' :: rest = (x ++ ['\r']) ++ '\n' :: rest := by simp
      rw [hsplit, Text.lines_cons hx', Text.dropLastReturn_append]
      rfl
  rw [List.append_assoc, classify_append ha, hline]

/-! ### Lines over any alphabet -/

section Cut
variable {α : Type} [DecidableEq α]

/-- The lines of a list that `sep` ends.  A `sep` at the very end starts no further line. -/
def cutLines (sep : α) : List α → List (List α)
  | [] => []
  | a :: l =>
    if a = sep then [] :: cutLines sep l
    else
      match cutLines sep l with
      | [] => [[a]]
      | line :: lines => (a :: line) :: lines

theorem cutLines_of_not_mem {sep : α} {x : List α} (hx : sep ∉ x) (hne : x ≠ []) :
    cutLines sep x = [x] := by
  induction x with
  | nil => exact absurd rfl hne
  | cons a x ih =>
    rw [List.mem_cons, not_or] at hx
    rw [cutLines, if_neg (Ne.symm hx.1)]
    by_cases hnil : x = []
    · rw [hnil]
      rfl
    · rw [ih hx.2 hnil]

theorem cutLines_append {sep : α} {x : List α} (hx : sep ∉ x) (rest : List α) :
    cutLines sep (x ++ sep :: rest) = x :: cutLines sep rest := by
  induction x with
  | nil => rw [List.nil_append, cutLines, if_pos rfl]
  | cons a x ih =>
    rw [List.mem_cons, not_or] at hx
    rw [List.cons_append, cutLines, if_neg (Ne.symm hx.1), ih hx.2]

/-- Any list is one line without its end, or a line with its end and a shorter list behind it. -/
theorem cutLines_induction (sep : α) {motive : List α → Prop}
    (last : ∀ x, sep ∉ x → motive x)
    (line : ∀ x rest, sep ∉ x → motive rest → motive (x ++ sep :: rest)) (l : List α) :
    motive l := by
  by_cases hmem : sep ∈ l
  · obtain ⟨x, rest, hl, hx⟩ := List.eq_append_cons_of_mem hmem
    have hlt : rest.length < l.length := by
      rw [hl, List.length_append, List.length_cons]
      omega
    rw [hl]
    exact line x rest hx (cutLines_induction sep last line rest)
  · exact last l hmem
termination_by l.length

/-- There are as many lines as ends, and one more if the last line goes without. -/
theorem length_cutLines (sep : α) (l : List α) :
    (cutLines sep l).length =
      l.count sep + if l = [] ∨ l.getLast? = some sep then 0 else 1 := by
  induction l using cutLines_induction sep with
  | last x hx =>
    have hlast : x.getLast? ≠ some sep := fun h => hx (List.mem_of_getLast? h)
    by_cases hnil : x = []
    · simp [hnil, cutLines]
    · rw [cutLines_of_not_mem hx hnil, List.count_eq_zero.2 hx, if_neg (by simp [hnil, hlast])]
      rfl
  | line x rest hx ih =>
    have hlast : (x ++ sep :: rest).getLast? = some sep ↔
        rest = [] ∨ rest.getLast? = some sep := by
      cases rest with
      | nil => simp
      | cons b rest => simp [List.getLast?_append, List.getLast?_cons]
    rw [cutLines_append hx, List.length_cons, ih, List.count_append, List.count_eq_zero.2 hx,
      List.count_cons_self]
    simp only [hlast, List.append_eq_nil_iff, reduceCtorEq, and_false, false_or]
    omega

end Cut

/-- Each line of a text is classified by itself. -/
theorem classify_eq_map_cutLines (t : Text) :
    classify t = (cutLines '\n' t).map Line.ofRaw := by
  induction t using cutLines_induction '\n' with
  | last x hx =>
    by_cases hnil : x = []
    · rw [hnil]
      rfl
    · unfold classify
      rw [Text.lines_of_not_mem hx hnil, cutLines_of_not_mem hx hnil]
  | line x rest hx ih =>
    unfold classify at ih ⊢
    rw [Text.lines_cons hx, cutLines_append hx, List.map_cons, List.map_cons, ih,
      Line.ofRaw_dropLastReturn]

/-! ### Indented lines -/

namespace Line

theorem ofRaw_eq_mk {raw text : Text} {topLevel : Bool} {kind : LineKind}
    (htop : Text.startsWithLetter raw = topLevel) (hclean : clean raw = text)
    (hkind : LineKind.ofText topLevel text = kind) : ofRaw raw = { text, topLevel, kind } := by
  subst htop hclean hkind
  rfl

/-- `x` is an indented line with a text that starts with a letter. -/
structure Indented (x indent text back : Text) : Prop where
  /-- The parts of the line. -/
  eq : x = indent ++ text ++ back
  /-- There is an indentation. -/
  indent_ne_nil : indent ≠ []
  /-- The indentation is blank. -/
  indent_blank : ∀ c ∈ indent, Text.isBlank c = true
  /-- What is behind the text is blank. -/
  back_blank : ∀ c ∈ back, Text.isBlank c = true
  /-- The text starts with a letter. -/
  letter : Text.startsWithLetter text = true
  /-- The text does not end with a blank. -/
  last : ∀ c ∈ text.getLast?, Text.isBlank c = false

namespace Indented
variable {x indent text back : Text}

theorem endsClear (h : Indented x indent text back) : Text.EndsClear Text.isBlank text := by
  refine ⟨?_, h.last⟩
  intro c hc
  exact Text.isBlank_eq_false_of_isAlpha (Text.isAlpha_head h.letter hc)

theorem startsWithLetter_eq (h : Indented x indent text back) :
    Text.startsWithLetter x = false := by
  obtain ⟨c, u, hc⟩ := List.exists_cons_of_ne_nil h.indent_ne_nil
  have hblank : Text.isBlank c = true := h.indent_blank c (by simp [hc])
  rw [h.eq, hc, Bool.eq_false_iff]
  intro hletter
  rw [Text.isBlank_eq_false_of_isAlpha hletter] at hblank
  cases hblank

theorem clean_eq (h : Indented x indent text back) : clean x = text := by
  unfold clean
  rw [if_neg (by simp [h.startsWithLetter_eq]), h.eq]
  exact Text.trimBy_append_append h.endsClear indent back h.indent_blank h.back_blank

theorem ofRaw_eq (h : Indented x indent text back) :
    ofRaw x = { text, topLevel := false, kind := LineKind.ofText false text } :=
  ofRaw_eq_mk h.startsWithLetter_eq h.clean_eq rfl

theorem text_ne_nil (h : Indented x indent text back) : text ≠ [] := by
  intro hnil
  have hletter := h.letter
  rw [hnil] at hletter
  cases hletter

theorem ne_nil (h : Indented x indent text back) : x ≠ [] := by
  rw [h.eq]
  simp [h.text_ne_nil]

theorem kind_ne_blank (h : Indented x indent text back) : (ofRaw x).kind ≠ .blank := by
  rw [h.ofRaw_eq]
  exact LineKind.ofText_ne_blank h.letter false

theorem dropWhile_eq (h : Indented x indent text back) :
    x.dropWhile Text.isBlank = text ++ back := by
  obtain ⟨c, u, hc⟩ := List.exists_cons_of_ne_nil h.text_ne_nil
  rw [h.eq, List.append_assoc, List.dropWhile_append_of_pos h.indent_blank]
  exact Text.dropWhile_of_head (by simpa [hc] using h.endsClear.head)

end Indented

/-- A line that is not top-level but starts with a letter once it is cleaned is indented. -/
theorem exists_indented {x : Text} (hindent : Text.startsWithLetter x = false)
    (hletter : Text.startsWithLetter (clean x) = true) :
    ∃ indent back, Indented x indent (clean x) back := by
  have hclean : clean x = Text.trim x := by
    unfold clean
    rw [if_neg (by simp [hindent])]
  obtain ⟨front, back, hfront, hback, heq⟩ := Text.exists_eq_append_trimBy Text.isBlank x
  rw [hclean] at hletter ⊢
  refine ⟨front, back, heq, ?_, hfront, hback, hletter, (Text.endsClear_trimBy _ x).last⟩
  intro hnil
  -- Without an indentation the letter would be in the first column.
  rw [hnil, List.nil_append] at heq
  have hprefix : Text.trim x <+: x := ⟨back, heq.symm⟩
  rw [LineKind.startsWithLetter_of_front hletter hprefix] at hindent
  cases hindent

end Line

end DeclSurvey
