import DeclSurvey.Proofs.ConventionalFile

/-! # Imports

Which names a file imports, and when they are the names that stand in it.

* `Line.importedText?` is what stands behind the import mark of a line;
* `Line.importName?_ofRaw`: the name of an import is this text without further import marks;
* `Facts.imports_of_typical`: the imports of a typical file, line by line;
* `Facts.imports_eq_written_iff`: they are as written exactly when no text holds another import
  mark.  A mark need not be a word: `House as Home` holds one. -/

namespace DeclSurvey

namespace Line

/-! ### Import lines -/

/-- What stands behind the import mark of a raw line, if it is a top-level line that starts with
one. -/
def importedText? (raw : Text) : Option Text :=
  if Text.startsWithLetter raw then Text.afterPrefix? importMark (clean raw) else none

theorem importedText?_importLine {x : Text} (hx : ';' ∉ x) :
    importedText? (ConventionalFile.importLine x) = some x := by
  have hclean : clean (ConventionalFile.importLine x) = importMark ++ x :=
    ConventionalFile.clean_statement (by decide) (by decide) hx
  show Text.afterPrefix? importMark (clean (ConventionalFile.importLine x)) = some x
  rw [hclean]
  exact Text.afterPrefix?_eq_some_iff.2 rfl

theorem kind_ofRaw_eq_importStatement_iff {raw : Text} :
    (ofRaw raw).kind = .importStatement ↔ ∃ t, importedText? raw = some t := by
  rw [kind_ofRaw, LineKind.ofText_eq_importStatement_iff]
  unfold importedText?
  constructor
  · intro h
    obtain ⟨hletter, t, ht⟩ := h
    refine ⟨t, ?_⟩
    rw [if_pos hletter]
    exact Text.afterPrefix?_eq_some_iff.2 ht.symm
  · intro h
    obtain ⟨t, ht⟩ := h
    split at ht
    · next hletter => exact ⟨hletter, t, (Text.afterPrefix?_eq_some_iff.1 ht).symm⟩
    · cases ht

/-- The name of an import is the text behind its mark without further marks, unless none is
left. -/
theorem importName?_ofRaw (raw : Text) :
    (ofRaw raw).importName? =
      (importedText? raw).bind fun t =>
        Option.guard (fun name => !name.isEmpty) (Text.removeAll importMark t) := by
  cases htext : importedText? raw with
  | none =>
    have hkind : (ofRaw raw).kind ≠ .importStatement := by
      rw [ne_eq, kind_ofRaw_eq_importStatement_iff, htext]
      simp
    unfold importName?
    split
    · next h => exact absurd h hkind
    · rfl
  | some t =>
    have hkind : (ofRaw raw).kind = .importStatement :=
      kind_ofRaw_eq_importStatement_iff.2 ⟨t, htext⟩
    have hclean : (ofRaw raw).text = importMark ++ t := by
      unfold importedText? at htext
      split at htext
      · exact Text.afterPrefix?_eq_some_iff.1 htext
      · cases htext
    -- The mark in front is removed like any other.
    have hname : Text.removeAll importMark (importMark ++ t) = Text.removeAll importMark t :=
      Text.replaceAll_self_append (by decide) [] t
    unfold importName?
    simp only [hkind, hclean, hname, Option.bind_some]
    cases Text.removeAll importMark t <;> rfl

/-- Something is left of a text that does not end with white space: a mark does. -/
theorem removeAll_importMark_ne_nil {x : Text} (hne : x ≠ [])
    (hclear : Text.EndsClear Text.isBlank x) : Text.removeAll importMark x ≠ [] := by
  intro hnil
  obtain ⟨front, hfront⟩ := Text.suffix_of_removeAll_eq_nil (by decide) x hne hnil
  have hlast : ' ' ∈ x.getLast? := by
    rw [← hfront]
    simp [importMark]
  have hblank := hclear.last ' ' hlast
  exact absurd hblank (by decide)

theorem importName?_importLine {x : Text} (hne : x ≠ []) (hclear : Text.EndsClear Text.isBlank x)
    (hx : ';' ∉ x) :
    (ofRaw (ConventionalFile.importLine x)).importName? = some (Text.removeAll importMark x) := by
  rw [importName?_ofRaw, importedText?_importLine hx, Option.bind_some, Option.guard_eq_some_iff]
  refine ⟨rfl, ?_⟩
  simpa using removeAll_importMark_ne_nil hne hclear

end Line

namespace Facts

/-! ### The imports of a file -/

/-- The texts behind the import marks of a source, in their order. -/
def importedTexts (source : Text) : List Text :=
  (Text.lines source).filterMap Line.importedText?

/-- A typical file imports what is left of these texts without further import marks. -/
theorem imports_of_typical {source : Text} (h : (ofSource source).isAtypical = false) :
    (ofSource source).imports =
      ((importedTexts source).map (Text.removeAll importMark)).filter (!·.isEmpty) := by
  show importsOf (structural (classify source)) = _
  rw [structural_eq_written h]
  unfold importsOf classify
  rw [filter_topLevel_written, List.filterMap_map, List.filterMap_filter]
  unfold importedTexts
  rw [← List.filterMap_eq_filter, List.filterMap_map, List.filterMap_filterMap]
  -- Both sides take the names line by line; a line without a letter in front has none.
  congr 1
  funext raw
  rw [Function.comp_apply, Line.importName?_ofRaw]
  split
  · rfl
  · next hletter =>
    rw [Line.importedText?, if_neg hletter]
    rfl

/-- Texts go through a change and a test as they are exactly when each of them does. -/
theorem filter_map_eq_self_iff {f : Text → Text} {p : Text → Bool} {ts : List Text} :
    (ts.map f).filter p = ts ↔ ∀ t ∈ ts, f t = t ∧ p t = true := by
  constructor
  · intro h
    have hlength : ((ts.map f).filter p).length = (ts.map f).length := by
      rw [h, List.length_map]
    have hall := List.length_filter_eq_length_iff.1 hlength
    rw [List.filter_eq_self.2 hall] at h
    intro t ht
    have hsame : f t = t := List.map_inj_left.1 (h.trans (List.map_id ts).symm) t ht
    refine ⟨hsame, ?_⟩
    rw [← hsame]
    exact hall (f t) (List.mem_map_of_mem ht)
  · intro h
    have hmap : ts.map f = ts :=
      (List.map_congr_left fun t ht => (h t ht).1).trans (List.map_id ts)
    rw [hmap, List.filter_eq_self]
    intro t ht
    exact (h t ht).2

end Facts

open ConventionalFile in
/-- The line of an import is classified as one, and the name that it brings in is its text without
further import marks: the text itself exactly when it holds none.  So a typical file imports, line
by line, what is left of the texts behind its import marks, and these texts as they are written
exactly when none of them is empty or holds another mark. -/
theorem Facts.imports_eq_written_iff :
    (∀ x : Text, x ≠ [] → Text.EndsClear Text.isBlank x → ';' ∉ x →
      (Line.ofRaw (importLine x)).kind = .importStatement ∧
      Line.importedText? (importLine x) = some x ∧
      (Line.ofRaw (importLine x)).importName? = some (Text.removeAll importMark x) ∧
      ((Line.ofRaw (importLine x)).importName? = some x ↔ ¬ importMark <:+: x)) ∧
    ∀ source : Text, (ofSource source).isAtypical = false →
      (ofSource source).imports =
        ((importedTexts source).map (Text.removeAll importMark)).filter (!·.isEmpty) ∧
      ((ofSource source).imports = importedTexts source ↔
        ∀ t ∈ importedTexts source, t ≠ [] ∧ ¬ importMark <:+: t) := by
  constructor
  · intro x hne hclear hx
    have htext := Line.importedText?_importLine hx
    have hname := Line.importName?_importLine hne hclear hx
    refine ⟨Line.kind_ofRaw_eq_importStatement_iff.2 ⟨x, htext⟩, htext, hname, ?_⟩
    rw [hname, Option.some.injEq]
    exact Text.removeAll_eq_self_iff (by decide)
  · intro source htypical
    have himports := imports_of_typical htypical
    refine ⟨himports, ?_⟩
    rw [himports, filter_map_eq_self_iff]
    apply forall₂_congr
    intro t _
    rw [Text.removeAll_eq_self_iff (by decide), Bool.not_eq_true', List.isEmpty_eq_false_iff]
    exact and_comm

/-- A class that imports a type under another name, and a function. -/
def Facts.aliasSource : Text :=
  "<?php\nuse Lib\\Shape as Figure;\n\nuse function Lib\\area;\nclass A\n".toList

theorem Facts.imports_written_alias :
    (Line.ofRaw "use Lib\\Shape as Figure;".toList).importName? =
      some "Lib\\Shape as Figure".toList ∧
    (ofSource aliasSource).imports = importedTexts aliasSource ∧
    importedTexts aliasSource = ["Lib\\Shape as Figure".toList, "function Lib\\area".toList] := by
  obtain ⟨hline, hfile⟩ := imports_eq_written_iff
  have hclear : Text.EndsClear Text.isBlank "Lib\\Shape as Figure".toList :=
    ⟨fun c hc => by cases hc; decide, fun c hc => by cases hc; decide⟩
  have htexts : importedTexts aliasSource =
      ["Lib\\Shape as Figure".toList, "function Lib\\area".toList] := by
    decide +kernel
  refine ⟨?_, ?_, htexts⟩
  · obtain ⟨-, -, -, hname⟩ :=
      hline "Lib\\Shape as Figure".toList (by decide) hclear (by decide)
    exact hname.2 (Text.not_infix_of_occursIn (by decide))
  · obtain ⟨-, hwritten⟩ := hfile aliasSource (by decide +kernel)
    apply hwritten.2
    rw [htexts, List.forall_mem_cons, List.forall_mem_singleton]
    exact ⟨⟨by decide, Text.not_infix_of_occursIn (by decide)⟩,
      ⟨by decide, Text.not_infix_of_occursIn (by decide)⟩⟩

open ConventionalFile in
/-- A name that ends in `use` loses these letters when it is given an alias: `House as Home` is
imported as `Hoas Home`. -/
theorem Line.not_all_imports_written :
    ¬ ∀ x : Text, x ≠ [] → Text.EndsClear Text.isBlank x → ';' ∉ x → '\n' ∉ x →
      (ofRaw (importLine x)).kind = .importStatement ∧
      (ofRaw (importLine x)).importName? = some x := by
  intro h
  have hclear : Text.EndsClear Text.isBlank "App\\House as Home".toList :=
    ⟨fun c hc => by cases hc; decide, fun c hc => by cases hc; decide⟩
  obtain ⟨-, hname⟩ :=
    h "App\\House as Home".toList (by decide) hclear (by decide) (by decide)
  exact absurd hname (by decide +kernel)

end DeclSurvey
