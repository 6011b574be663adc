import DeclSurvey.Facts.Format
import DeclSurvey.Proofs.Structure

/-! # Facts shown line by line

The text form of the facts is one line for each field, and readers take it apart at the newlines.
This works because no text among the facts holds a newline: the survey reads single lines, and
whatever it does to them brings in only a few fixed characters.

* `Heading.mem_of_mem_texts_parse`, `Members.mem_of_mem_tidy`: which characters are brought in;
* `Facts.newline_not_mem_texts`: no text among the facts holds a newline;
* `Facts.splitChar_display`: the text form falls into the rows of the fields;
* `Value.eq_of_display_eq`: a row shows its value, unless that is a list. -/

namespace DeclSurvey

/-! ### The heading -/

namespace Heading

/-- All texts of a heading. -/
def texts (h : Heading) : List Text :=
  h.head :: h.tail :: h.parent :: (h.words ++ h.interfaces)

theorem eq_nil_of_mem_texts_empty {t : Text} (h : t ∈ texts {}) : t = [] := by
  simpa [texts] using h

theorem mem_of_mem_tidy {c : Char} {line : Text} (h : c ∈ tidy line) : c = ' ' ∨ c ∈ line := by
  rcases Text.mem_of_mem_replaceAll h with h | h
  · exact Or.inl (List.mem_singleton.1 h)
  · exact Or.inr ((Text.trimBy_isInfix _ line).subset h)

/-- The mark of a clause does not get into the head. -/
theorem mem_of_mem_headOf {c : Char} {line : Text} (h : c ∈ headOf line) : c ∈ line := by
  have hbefore : c ∈ Text.beforeChar clauseMark (markClauses line) :=
    (Text.trimBy_isInfix _ _).subset h
  have hmark : c ∉ [clauseMark] := by
    rw [List.mem_singleton]
    simpa using List.mem_takeWhile_imp hbefore
  have hmem : c ∈ markClauses line := (List.takeWhile_prefix _).subset hbefore
  have hinner := (Text.mem_of_mem_replaceAll hmem).resolve_left hmark
  exact (Text.mem_of_mem_replaceAll hinner).resolve_left hmark

theorem mem_of_mem_clauseBody {c : Char} {word tail : Text} (h : c ∈ clauseBody word tail) :
    c = ' ' ∨ c ∈ tail :=
  List.mem_cons.1 ((Text.afterLast_suffix _ _).subset h)

theorem mem_of_mem_parentOf {c : Char} {tail : Text} (h : c ∈ parentOf tail) :
    c = ' ' ∨ c ∈ tail := by
  unfold parentOf at h
  split at h
  · exact mem_of_mem_clauseBody ((List.takeWhile_prefix _).subset h)
  · cases h

theorem mem_of_mem_interfacesOf {c : Char} {tail name : Text} (hname : name ∈ interfacesOf tail)
    (h : c ∈ name) : c = ' ' ∨ c ∈ tail := by
  unfold interfacesOf at hname
  split at hname
  · obtain ⟨item, hitem, rfl⟩ := List.mem_map.1 hname
    have hbefore : c ∈ Text.beforeChar ' ' (Text.trim item) := (Text.trimBy_isInfix _ _).subset h
    have htrim : c ∈ Text.trim item := (List.takeWhile_prefix _).subset hbefore
    have hc : c ∈ item := (Text.trimBy_isInfix _ _).subset htrim
    exact mem_of_mem_clauseBody (Text.mem_of_mem_splitChar hitem hc)
  · cases hname

/-- The texts of a heading hold no characters but spaces and those of the line. -/
theorem mem_of_mem_texts_parse {c : Char} {line t : Text} (ht : t ∈ (parse line).texts)
    (h : c ∈ t) : c = ' ' ∨ c ∈ line := by
  unfold parse at ht
  simp only at ht
  split at ht
  · rw [eq_nil_of_mem_texts_empty ht] at h
    cases h
  · have hhead : ∀ {d}, d ∈ headOf (tidy line) → d = ' ' ∨ d ∈ line := fun hd =>
      mem_of_mem_tidy (mem_of_mem_headOf hd)
    have htail : ∀ {d}, d ∈ tailOf (headOf (tidy line)) (tidy line) → d = ' ' ∨ d ∈ line :=
      fun hd => mem_of_mem_tidy (Text.mem_of_mem_removeAll ((Text.trimBy_isInfix _ _).subset hd))
    simp only [texts, List.mem_cons, List.mem_append] at ht
    rcases ht with rfl | rfl | rfl | hword | hname
    · exact hhead h
    · exact htail h
    · exact (mem_of_mem_parentOf h).elim Or.inl htail
    · exact hhead (Text.mem_of_mem_splitChar hword h)
    · exact (mem_of_mem_interfacesOf hname h).elim Or.inl htail

end Heading

/-! ### The members -/

namespace Members

/-- All texts of the members. -/
def texts (m : Members) : List Text :=
  m.constants ++ m.properties ++ m.cases

/-- The text of a member holds no characters but those of its line and of the list mark. -/
theorem mem_of_mem_tidy {c : Char} {t : Text} (h : c ∈ tidy t) : c ∈ openListMark ∨ c ∈ t := by
  have hstrip : Text.strip (dropComment t) <:+: t :=
    (Text.trimBy_isInfix _ _).trans (dropComment_isInfix t)
  unfold tidy closeList at h
  split at h
  · rcases List.mem_append.1 h with h | h
    · exact Or.inr (hstrip.subset h)
    · exact Or.inl h
  · exact Or.inr (hstrip.subset h)

/-- The three lists together hold what has been collected. -/
theorem texts_scan_perm (ls : List Line) : (scan ls).texts.Perm (collect .ahead ls) := by
  rw [scan_eq_sorted]
  refine List.Perm.trans ?_ (sorted_perm _)
  unfold texts
  rw [List.append_assoc]
  exact List.Perm.append_left _ List.perm_append_comm

end Members

/-! ### The facts -/

namespace Line

theorem mem_of_mem_clean {c : Char} {raw : Text} (h : c ∈ clean raw) : c ∈ raw := by
  unfold clean at h
  split at h
  · exact (Text.trimBy_isInfix _ raw).subset (List.mem_filter.1 h).1
  · exact (Text.trimBy_isInfix _ raw).subset h

theorem mem_of_mem_namespaceName? {c : Char} {l : Line} {t : Text}
    (ht : l.namespaceName? = some t) (h : c ∈ t) : c ∈ l.text := by
  unfold namespaceName? at ht
  split at ht
  · rw [Text.afterPrefix?_eq_some_iff.1 ht]
    exact List.mem_append_right _ h
  · cases ht

theorem mem_of_mem_importName? {c : Char} {l : Line} {t : Text}
    (ht : l.importName? = some t) (h : c ∈ t) : c ∈ l.text := by
  unfold importName? at ht
  split at ht
  · simp only [Option.ite_none_left_eq_some, Option.some.injEq] at ht
    rw [← ht.2] at h
    exact Text.mem_of_mem_removeAll h
  · cases ht

end Line

theorem newline_not_mem_text {source : Text} {l : Line} (h : l ∈ classify source) :
    '\n' ∉ l.text := by
  obtain ⟨raw, hraw, rfl⟩ := List.mem_map.1 h
  intro hmem
  exact Text.newline_not_mem_of_mem_lines hraw (Line.mem_of_mem_clean hmem)

namespace Facts

/-- All texts that the facts hold. -/
def texts (f : Facts) : List Text :=
  f.namespaceName :: (f.heading.texts ++ f.imports ++ f.members.texts ++ f.methods)

theorem mem_of_mem_structural {ls : List Line} {l : Line} (h : l ∈ structural ls) : l ∈ ls := by
  unfold structural at h
  split at h
  · cases h
  · exact (List.mem_filter.1 h).1

theorem newline_not_mem_heading {ls : List Line} (h : ∀ l ∈ ls, '\n' ∉ l.text) :
    ∀ t ∈ (headingOf ls).texts, '\n' ∉ t := by
  intro t ht hmem
  unfold headingOf at ht
  split at ht
  · next l hl =>
    have hl : l ∈ ls := (List.mem_filter.1 (List.mem_of_getLast? hl)).1
    rcases Heading.mem_of_mem_texts_parse ht hmem with hspace | hline
    · exact absurd hspace (by decide)
    · exact h l hl hline
  · rw [Heading.eq_nil_of_mem_texts_empty ht] at hmem
    cases hmem

theorem newline_not_mem_members {ls : List Line} (h : ∀ l ∈ ls, '\n' ∉ l.text) :
    ∀ t ∈ (Members.scan ls).texts, '\n' ∉ t := by
  intro t ht hmem
  obtain ⟨l, hl, -, -, rfl⟩ :=
    Members.exists_of_mem_collect ((Members.texts_scan_perm ls).mem_iff.1 ht)
  rcases Members.mem_of_mem_tidy hmem with hmark | hline
  · exact absurd hmark (by decide)
  · exact h l hl hline

theorem newline_not_mem_imports {ls : List Line} (h : ∀ l ∈ ls, '\n' ∉ l.text) :
    ∀ t ∈ importsOf ls, '\n' ∉ t := by
  intro t ht hmem
  obtain ⟨l, hl, heq⟩ := List.mem_filterMap.1 ht
  exact h l (List.mem_filter.1 hl).1 (Line.mem_of_mem_importName? heq hmem)

theorem newline_not_mem_methods {ls : List Line} (h : ∀ l ∈ ls, '\n' ∉ l.text) :
    ∀ t ∈ methodsOf ls, '\n' ∉ t := by
  intro t ht
  obtain ⟨l, hl, rfl⟩ := List.mem_map.1 ht
  exact h l (List.mem_filter.1 hl).1

theorem newline_not_mem_namespaceName {ls : List Line} (h : ∀ l ∈ ls, '\n' ∉ l.text) :
    '\n' ∉ (ofLines ls).namespaceName := by
  show '\n' ∉ (ls.findSome? (·.namespaceName?)).getD []
  cases hfirst : ls.findSome? (·.namespaceName?) with
  | none => exact List.not_mem_nil
  | some t =>
    obtain ⟨l, hl, heq⟩ := List.exists_of_findSome?_eq_some hfirst
    exact fun hmem => h l hl (Line.mem_of_mem_namespaceName? heq hmem)

/-- No text among the facts holds a newline. -/
theorem newline_not_mem_texts (source : Text) : ∀ t ∈ (ofSource source).texts, '\n' ∉ t := by
  have hlines : ∀ l ∈ classify source, '\n' ∉ l.text := fun l => newline_not_mem_text
  have hstructural : ∀ l ∈ structural (classify source), '\n' ∉ l.text := fun l hl =>
    hlines l (mem_of_mem_structural hl)
  intro t ht
  simp only [texts, List.mem_cons, List.mem_append] at ht
  rcases ht with rfl | ((ht | ht) | ht) | ht
  · exact newline_not_mem_namespaceName hlines
  · exact newline_not_mem_heading hstructural t ht
  · exact newline_not_mem_imports hstructural t ht
  · exact newline_not_mem_members hstructural t ht
  · exact newline_not_mem_methods hstructural t ht

end Facts

/-! ### Values -/

namespace Text

theorem not_mem_ofNat {c : Char} (hc : c.isDigit = false) (n : Nat) : c ∉ ofNat n := by
  intro h
  have hdigit : c.isDigit = true := Nat.isDigit_of_mem_toDigits (by decide) (by decide) h
  rw [hc] at hdigit
  cases hdigit

/-- A number is told by its digits. -/
theorem ofNat_injective {m n : Nat} (h : ofNat m = ofNat n) : m = n := by
  have hread := congrArg (Nat.ofDigitChars 10 · 0) h
  unfold ofNat at hread
  rwa [Nat.ofDigitChars_toDigits (by decide) (by decide),
    Nat.ofDigitChars_toDigits (by decide) (by decide)] at hread

theorem newline_not_mem_joinWith {sep : Text} {ws : List Text} (hsep : '\n' ∉ sep)
    (h : ∀ w ∈ ws, '\n' ∉ w) : '\n' ∉ joinWith sep ws := by
  intro hmem
  rcases mem_joinWith hmem with hmem | ⟨w, hw, hmem⟩
  · exact hsep hmem
  · exact h w hw hmem

end Text

namespace Value

/-- All texts that a value holds. -/
def texts : Value → List Text
  | text t => [t]
  | count _ | flag _ => []
  | list ts => ts

theorem newline_not_mem_display {v : Value} (h : ∀ t ∈ v.texts, '\n' ∉ t) : '\n' ∉ v.display := by
  cases v with
  | text t => exact h t (by simp [texts])
  | count n => exact Text.not_mem_ofNat rfl n
  | flag b => cases b <;> decide
  | list ts =>
    cases ts with
    | nil => decide
    | cons t ts => exact Text.newline_not_mem_joinWith (by decide) h

/-- Two values are of the same sort. -/
def SameSort : Value → Value → Prop
  | text _, text _ | count _, count _ | flag _, flag _ | list _, list _ => True
  | _, _ => False

/-- What is shown tells the value, if that is not a list. -/
theorem eq_of_display_eq {v w : Value} (hsort : SameSort v w) (hlist : ∀ ts, v ≠ list ts)
    (h : v.display = w.display) : v = w := by
  cases v <;> cases w <;> try cases hsort
  case text.text t u => exact congrArg text h
  case count.count m n => exact congrArg count (Text.ofNat_injective h)
  case flag.flag a b =>
    revert h
    cases a <;> cases b <;> decide
  case list.list ts us => exact absurd rfl (hlist ts)

end Value

/-! ### The sheet -/

/-- A field as it is shown on its line. -/
def Sheet.row (entry : Text × Value) : Text :=
  entry.1 ++ ": ".toList ++ entry.2.display

theorem Sheet.display_eq_rows (sheet : Sheet) :
    sheet.display = (sheet.map row).flatMap (· ++ ['\n']) := by
  unfold Sheet.display
  rw [List.flatMap_map]
  rfl

namespace Facts

theorem newline_not_mem_keys : ∀ field ∈ fields, '\n' ∉ field.1 := by
  decide

section NewlineFree
variable {f : Facts} (h : ∀ t ∈ f.texts, '\n' ∉ t)
include h

theorem newline_not_mem_fullName : '\n' ∉ f.fullName :=
  h _ (by simp [texts, Heading.texts, fullName])

theorem newline_not_mem_words : ∀ w ∈ f.heading.words, '\n' ∉ w := fun w hw =>
  h w (by simp [texts, Heading.texts, hw])

theorem newline_not_mem_name : '\n' ∉ f.name := by
  unfold name Heading.name
  cases hlast : f.heading.words.getLast? with
  | none => exact List.not_mem_nil
  | some w => exact newline_not_mem_words h w (List.mem_of_getLast? hlast)

theorem newline_not_mem_keyword : '\n' ∉ f.keyword := by
  unfold keyword Heading.keyword
  cases hword : f.heading.words[f.heading.words.length - 2]? with
  | none => exact List.not_mem_nil
  | some w => exact newline_not_mem_words h w (List.mem_of_getElem? hword)

theorem newline_not_mem_qualifiedName : '\n' ∉ f.qualifiedName := by
  have hspace : '\n' ∉ f.namespaceName := h _ (by simp [texts])
  simp [qualifiedName, hspace, newline_not_mem_name h]

theorem newline_not_mem_values : ∀ field ∈ fields, ∀ t ∈ (field.2 f).texts, '\n' ∉ t := by
  -- Counts and flags hold no text, which leaves the texts and the lists.
  simp only [fields, List.forall_mem_cons, Value.texts, List.mem_singleton, forall_eq,
    List.not_mem_nil, false_implies, implies_true, and_true, true_and]
  refine ⟨newline_not_mem_name h, newline_not_mem_keyword h, ?constants, ?cases, ?parent,
    newline_not_mem_fullName h, ?interfaces, ?imports, ?methods, ?space, ?properties,
    newline_not_mem_qualifiedName h⟩
  case parent => exact h _ (by simp [texts, Heading.texts])
  case space => exact h _ (by simp [texts])
  all_goals
    intro t ht
    exact h t (by simp [texts, Heading.texts, Members.texts, ht])

theorem newline_not_mem_rows : ∀ row ∈ f.sheet.map Sheet.row, '\n' ∉ row := by
  intro row hrow
  obtain ⟨entry, hentry, rfl⟩ := List.mem_map.1 hrow
  obtain ⟨field, hfield, rfl⟩ := List.mem_map.1 hentry
  have hkey := newline_not_mem_keys field hfield
  have hvalue := Value.newline_not_mem_display (newline_not_mem_values h field hfield)
  simp [Sheet.row, hkey, hvalue]

/-- The text form falls into the rows of the fields, each with its newline. -/
theorem splitChar_display : Text.splitChar '\n' f.display = f.sheet.map Sheet.row ++ [[]] := by
  unfold Facts.display
  rw [Sheet.display_eq_rows]
  exact Text.splitChar_flatMap_concat (newline_not_mem_rows h)

theorem newline_not_mem_compactLine {path : Text} (hpath : '\n' ∉ path) :
    '\n' ∉ f.compactLine path := by
  unfold compactLine
  split
  · have hitems : '\n' ∉ f.tally.itemsText := by
      refine Text.newline_not_mem_joinWith (by decide) ?_
      intro item hitem
      obtain ⟨⟨s, n⟩, -, rfl⟩ := List.mem_map.1 hitem
      have hkeyword : '\n' ∉ s.keyword := by cases s <;> decide
      simp [hkeyword, Text.not_mem_ofNat (c := '\n') rfl n]
    simp [hpath, hitems]
  · simp [hpath, newline_not_mem_fullName h, newline_not_mem_qualifiedName h]

end NewlineFree

/-- A field is of the same sort for all files. -/
theorem sameSort_of_mem_fields : ∀ field ∈ fields, ∀ f g : Facts,
    (field.2 f).SameSort (field.2 g) := by
  simp only [fields, List.forall_mem_cons, Value.SameSort, List.not_mem_nil, false_implies,
    implies_true, and_true]

theorem rows_eq_map (f : Facts) :
    f.sheet.map Sheet.row = fields.map fun field => Sheet.row (field.1, field.2 f) := by
  unfold sheet
  rw [List.map_map]
  rfl

/-- Equal text forms show equal values, where these are no lists. -/
theorem value_eq_of_display_eq {f g : Facts} (hf : ∀ t ∈ f.texts, '\n' ∉ t)
    (hg : ∀ t ∈ g.texts, '\n' ∉ t) (h : f.display = g.display) {field : Text × (Facts → Value)}
    (hfield : field ∈ fields) (hlist : ∀ ts, field.2 f ≠ .list ts) : field.2 f = field.2 g := by
  have hrows : f.sheet.map Sheet.row = g.sheet.map Sheet.row := by
    have hsplit := splitChar_display hf
    rw [h, splitChar_display hg] at hsplit
    exact (List.append_cancel_right hsplit).symm
  rw [rows_eq_map, rows_eq_map, List.map_inj_left] at hrows
  refine Value.eq_of_display_eq (sameSort_of_mem_fields field hfield f g) hlist ?_
  exact List.append_cancel_left (hrows field hfield)

/-- No text among the facts of a file holds a newline.  So the text form, taken apart at the
newlines, is one row for each of the 25 fields and nothing behind the last newline; files with the
same text form agree in every field that is not a list; and a compact line is a single line. -/
theorem display_framed (source : Text) :
    (∀ t ∈ (ofSource source).texts, '\n' ∉ t) ∧
    fields.length = 25 ∧
    Text.splitChar '\n' (ofSource source).display =
      (fields.map fun field =>
        field.1 ++ ": ".toList ++ (field.2 (ofSource source)).display) ++ [[]] ∧
    (∀ other : Text, (ofSource source).display = (ofSource other).display →
      ∀ field ∈ fields, (∀ ts, field.2 (ofSource source) ≠ .list ts) →
        field.2 (ofSource source) = field.2 (ofSource other)) ∧
    ∀ path : Text, '\n' ∉ path → '\n' ∉ (ofSource source).compactLine path := by
  have htexts := newline_not_mem_texts source
  refine ⟨htexts, rfl, ?_, ?_, ?_⟩
  · rw [splitChar_display htexts, rows_eq_map]
    rfl
  · intro other h field hfield hlist
    exact value_eq_of_display_eq htexts (newline_not_mem_texts other) h hfield hlist
  · intro path hpath
    exact newline_not_mem_compactLine htexts hpath

/-- Two files that differ in their blanks alone are shown alike, so their names are the same, and
so is the line that they are listed on. -/
theorem display_framed_interface :
    (ofSource "interface I\n\x7b\n".toList).name = (ofSource "interface I \r\n\x7b".toList).name ∧
    '\n' ∉ (ofSource "interface I\n\x7b\n".toList).compactLine "I.php".toList := by
  obtain ⟨-, -, -, hvalue, hpath⟩ := display_framed "interface I\n\x7b\n".toList
  refine ⟨?_, hpath "I.php".toList (by decide)⟩
  have hname := hvalue "interface I \r\n\x7b".toList (by decide +kernel)
    ("get_class_name".toList, fun f => .text f.name) List.mem_cons_self (by intro ts hts; cases hts)
  exact Value.text.inj hname

end Facts

end DeclSurvey
