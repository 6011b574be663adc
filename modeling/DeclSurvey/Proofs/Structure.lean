import DeclSurvey.Proofs.Members
import DeclSurvey.Proofs.Tally

/-! # Lines that structure is read from

A typical file is read from its lines that are not blank, an atypical one from none.

* `Facts.structural_eq_written` and `Facts.structural_of_isAtypical` are these two cases;
* `Facts.written_map_ofRaw`: which raw lines are not blank;
* `Facts.filter_topLevel_written`: none of those that start with a letter is left out;
* `Facts.scan_written`: the member scan passes over blank lines;
* `Facts.ofLines_eq_of_written_eq`: blank lines matter to nothing but the number of lines. -/

namespace DeclSurvey

/-! ### Blank lines -/

/-- A raw line holds something else than white space. -/
def Line.isWritten (raw : Text) : Bool :=
  raw.any fun c => !Text.isBlank c

namespace Line

theorem clean_eq_nil_iff {raw : Text} : clean raw = [] ↔ isWritten raw = false := by
  unfold clean isWritten
  rw [List.any_eq_false]
  by_cases hletter : Text.startsWithLetter raw = true
  · -- The first character is not blank, and cleaning keeps it.
    refine iff_of_false ?_ ?_
    · have hclean := startsWithLetter_clean hletter
      unfold clean at hclean
      intro hnil
      rw [hnil] at hclean
      cases hclean
    · cases raw with
      | nil => cases hletter
      | cons c raw =>
        intro hall
        exact hall c (by simp) (by simp [Text.isBlank_eq_false_of_isAlpha hletter])
  · rw [if_neg hletter]
    constructor
    · intro hnil c hc hblank
      have hmem := (Text.mem_trimBy_iff (p := Text.isBlank) (by simpa using hblank) raw).2 hc
      have hnil : Text.trimBy Text.isBlank raw = [] := hnil
      rw [hnil] at hmem
      cases hmem
    · intro hall
      apply List.eq_nil_iff_forall_not_mem.2
      intro c hc
      -- What is left would start with a character that is not blank.
      have hclear := (Text.endsClear_trimBy Text.isBlank raw).head
      obtain ⟨d, u, hd⟩ := List.exists_cons_of_ne_nil (List.ne_nil_of_mem hc)
      have hd' : Text.isBlank d = false := hclear d (by rw [← Text.trim, hd]; rfl)
      have hmem : d ∈ raw := (Text.trimBy_isInfix Text.isBlank raw).subset
        (by rw [← Text.trim, hd]; simp)
      exact hall d hmem (by simp [hd'])

theorem kind_ofRaw_eq_blank_iff {raw : Text} :
    (ofRaw raw).kind = .blank ↔ isWritten raw = false := by
  rw [← clean_eq_nil_iff, kind_ofRaw]
  constructor
  · intro hblank
    by_contra hne
    by_cases hletter : Text.startsWithLetter (clean raw) = true
    · exact LineKind.ofText_ne_blank hletter _ hblank
    · rw [LineKind.ofText_of_not_letter hletter, if_neg (by simpa using hne)] at hblank
      revert hblank
      split <;> (try split) <;> simp
  · intro hnil
    rw [hnil]
    rfl

end Line

namespace Facts

/-! ### Structural lines -/

theorem structural_eq_written {ls : List Line} (h : (Tally.ofLines ls).isAtypical = false) :
    structural ls = written ls := by
  unfold structural
  rw [if_neg (by simp [h])]

theorem structural_of_isAtypical {ls : List Line} (h : (Tally.ofLines ls).isAtypical = true) :
    structural ls = [] := by
  unfold structural
  rw [if_pos h]

theorem members_of_typical {source : Text} (h : (ofSource source).isAtypical = false) :
    (ofSource source).members = Members.scan (written (classify source)) := by
  show Members.scan (structural (classify source)) = _
  rw [structural_eq_written h]

theorem members_of_isAtypical {source : Text} (h : (ofSource source).isAtypical = true) :
    (ofSource source).members = Members.sorted [] := by
  show Members.scan (structural (classify source)) = _
  rw [structural_of_isAtypical h]
  rfl

theorem written_cons_of_blank {l : Line} (h : l.kind = .blank) (ls : List Line) :
    written (l :: ls) = written ls :=
  List.filter_cons_of_neg (by simp [h])

theorem written_cons_of_ne_blank {l : Line} (h : l.kind ≠ .blank) (ls : List Line) :
    written (l :: ls) = l :: written ls :=
  List.filter_cons_of_pos (by simpa using h)

theorem written_append (ls ms : List Line) : written (ls ++ ms) = written ls ++ written ms :=
  List.filter_append ..

theorem written_append_cons {l : Line} (h : l.kind ≠ .blank) (pre post : List Line) :
    written (pre ++ l :: post) = written pre ++ l :: written post := by
  rw [written_append, written_cons_of_ne_blank h]

theorem written_map_ofRaw (raws : List Text) :
    written (raws.map Line.ofRaw) = (raws.filter Line.isWritten).map Line.ofRaw := by
  unfold written
  rw [List.filter_map]
  congr 1
  apply List.filter_congr
  intro raw _
  rw [Function.comp_apply, Bool.eq_iff_iff, bne_iff_ne, ne_eq, Line.kind_ofRaw_eq_blank_iff]
  simp

/-- No top-level line is blank. -/
theorem filter_topLevel_written (raws : List Text) :
    (written (raws.map Line.ofRaw)).filter (·.topLevel) =
      (raws.filter Text.startsWithLetter).map Line.ofRaw := by
  rw [written_map_ofRaw, List.filter_map, List.filter_filter]
  congr 1
  apply List.filter_congr
  intro raw _
  by_cases hletter : Text.startsWithLetter raw = true
  · have hwritten : Line.isWritten raw = true := by
      rw [← Bool.not_eq_false, ← Line.kind_ofRaw_eq_blank_iff]
      exact Line.kind_ofRaw_ne_blank hletter
    simp [hletter, hwritten]
  · simp [hletter]

/-! ### Blank lines are inert -/

theorem filter_written {p : Line → Bool} (hp : ∀ l, p l = true → l.kind ≠ .blank)
    (ls : List Line) : (written ls).filter p = ls.filter p := by
  unfold written
  rw [List.filter_filter]
  apply List.filter_congr
  intro l _
  by_cases hl : p l = true
  · simp [hl, hp l hl]
  · simp [hl]

theorem tally_written (ls : List Line) : Tally.ofLines (written ls) = Tally.ofLines ls := by
  apply Tally.eq_of_count_eq (Tally.ordered_ofLines _) (Tally.ordered_ofLines _)
  intro s
  rw [Tally.count_ofLines, Tally.count_ofLines, List.countP_eq_length_filter,
    List.countP_eq_length_filter, filter_written]
  intro l hl hblank
  rw [Tally.opens_iff, hblank] at hl
  cases hl

theorem findSome?_namespaceName?_written (ls : List Line) :
    (written ls).findSome? (·.namespaceName?) = ls.findSome? (·.namespaceName?) := by
  induction ls with
  | nil => rfl
  | cons l ls ih =>
    by_cases hblank : l.kind = .blank
    · have hnone : l.namespaceName? = none := by simp [Line.namespaceName?, hblank]
      rw [written_cons_of_blank hblank, ih, List.findSome?_cons, hnone]
    · rw [written_cons_of_ne_blank hblank, List.findSome?_cons, List.findSome?_cons, ih]

theorem structural_written (ls : List Line) : structural (written ls) = structural ls := by
  have htwice : written (written ls) = written ls := by
    unfold written
    rw [List.filter_filter]
    simp
  unfold structural
  rw [tally_written, htwice]

/-- Blank lines matter to nothing but the number of lines. -/
theorem ofLines_eq_of_written_eq {ls ms : List Line} (h : written ls = written ms) :
    ofLines ls = { ofLines ms with lineCount := ls.length } := by
  have hstructural : structural ls = structural ms := by
    rw [← structural_written ls, h, structural_written]
  unfold ofLines
  rw [← findSome?_namespaceName?_written ls, ← tally_written ls, hstructural, h,
    findSome?_namespaceName?_written, tally_written]

/-- The member scan passes over blank lines. -/
theorem scan_written (raws : List Text) :
    Members.scan (written (raws.map Line.ofRaw)) = Members.scan (raws.map Line.ofRaw) := by
  rw [Members.scan_eq_sorted, Members.scan_eq_sorted]
  congr 1
  -- The stage changes along the run, so the statement is about all stages.
  generalize Members.Stage.ahead = stage
  induction raws generalizing stage with
  | nil => rfl
  | cons raw raws ih =>
    rw [List.map_cons, Members.collect]
    by_cases hblank : (Line.ofRaw raw).kind = .blank
    · have htext : (Line.ofRaw raw).text = [] :=
        Line.clean_eq_nil_iff.2 (Line.kind_ofRaw_eq_blank_iff.1 hblank)
      have hword : (Line.ofRaw raw).kind.isWordLed = false := by rw [hblank]; rfl
      have hopen : (Line.ofRaw raw).kind ≠ .bodyOpen := by rw [hblank]; exact LineKind.noConfusion
      have hfun : (Line.ofRaw raw).mentionsFunction = false := by
        rw [Line.mentionsFunction, htext]
        rfl
      rw [written_cons_of_blank hblank, Members.Stage.member?_of_not_wordLed hword,
        Members.Stage.next_of_not_wordLed hword hopen hfun, ih]
      rfl
    · rw [written_cons_of_ne_blank hblank, Members.collect, ih]

end Facts

end DeclSurvey
