import DeclSurvey.Facts.Sheet
import DeclSurvey.Proofs.Structure

/-! # Atypical files

Of an atypical file only three facts are left: the number of its lines, its namespace and its
tally.  Everything else is erased, so that nothing else in the file can show.

* `Line.namespaceName?_ofRaw`: which raw lines name a namespace, by their text alone;
* `Facts.erased`: facts of which only the three are left;
* `Facts.ofLines_of_isAtypical`: the facts of an atypical file are of this form;
* `Facts.erasedAs_of_mem_sheet`: what the sheet of such facts shows in each of its fields. -/

namespace DeclSurvey

/-! ### The namespace -/

namespace Line

/-- What a raw line names as the namespace: what follows the namespace mark, if the line starts
with it in its first column. -/
def declaredNamespace? (raw : Text) : Option Text :=
  if Text.startsWithLetter raw then Text.afterPrefix? namespaceMark (clean raw) else none

theorem namespaceName?_ofRaw (raw : Text) :
    (ofRaw raw).namespaceName? = declaredNamespace? raw := by
  unfold namespaceName? declaredNamespace?
  rw [kind_ofRaw, text_ofRaw]
  cases hletter : Text.startsWithLetter raw with
  | false =>
    have hkind : LineKind.ofText false (clean raw) ≠ .namespaceStatement := by
      rw [ne_eq, LineKind.ofText_eq_namespaceStatement_iff]
      simp
    split
    · next h => exact absurd h hkind
    · rfl
  | true =>
    by_cases hmark : namespaceMark <+: clean raw
    · rw [LineKind.ofText_eq_namespaceStatement_iff.2 ⟨rfl, hmark⟩]
      rfl
    · have hnone : Text.afterPrefix? namespaceMark (clean raw) = none := by
        unfold Text.afterPrefix?
        rw [if_neg (by rwa [List.isPrefixOf_iff_prefix])]
      rw [hnone]
      split <;> rfl

end Line

namespace Facts

/-- What the first line with a namespace names. -/
def declaredNamespace (source : Text) : Text :=
  ((Text.lines source).findSome? Line.declaredNamespace?).getD []

theorem namespaceName_ofSource (source : Text) :
    (ofSource source).namespaceName = declaredNamespace source := by
  show ((classify source).findSome? (·.namespaceName?)).getD [] = _
  unfold classify declaredNamespace
  rw [List.findSome?_map]
  congr 2
  funext raw
  exact Line.namespaceName?_ofRaw raw

/-! ### What is left -/

/-- Facts of which only the number of lines, the namespace and the tally are left. -/
def erased (lineCount : Nat) (namespaceName : Text) (tally : Tally) : Facts where
  lineCount := lineCount
  namespaceName := namespaceName
  heading := {}
  imports := []
  members := {}
  methods := []
  tally := tally

theorem ofLines_of_isAtypical {ls : List Line} (h : (Tally.ofLines ls).isAtypical = true) :
    ofLines ls = erased ls.length (ofLines ls).namespaceName (Tally.ofLines ls) := by
  unfold ofLines
  rw [structural_of_isAtypical h]
  rfl

theorem ofSource_of_isAtypical {source : Text} (h : (ofSource source).isAtypical = true) :
    ofSource source = erased (Text.lines source).length (declaredNamespace source)
      (ofSource source).tally := by
  rw [← namespaceName_ofSource, ← length_classify]
  exact ofLines_of_isAtypical h

theorem isAtypical_iff_declarationLines {source : Text} :
    (ofSource source).isAtypical = true ↔ Tally.declarationLines source ≠ 1 := by
  rw [← Tally.countP_opensAny_classify, ← Tally.total_ofLines]
  exact Tally.isAtypical_iff (Tally.ordered_ofLines _)

end Facts

/-! ### The sheet -/

/-- A value of an erased sheet: texts and lists are empty and flags are down, except where the
name asks for the namespace or for the verdict. -/
def Value.ErasedAs (lineCount : Nat) (namespaceName key : Text) : Value → Prop
  | text t =>
    t = if key = "get_namespace".toList then namespaceName
      else if key = "get_qualified_name".toList then '\\' :: namespaceName ++ ['\\']
      else []
  | count n => n = lineCount
  | flag b => b = decide (key = "is_atypical_class".toList)
  | list ts => ts = []

namespace Facts

/-- The sheet of erased facts shows the number of lines, the namespace and the verdict, and
nothing else. -/
theorem erasedAs_of_mem_sheet {n : Nat} {space : Text} {tally : Tally}
    (h : tally.isAtypical = true) :
    ∀ entry ∈ (erased n space tally).sheet, entry.2.ErasedAs n space entry.1 := by
  have hatypical : (erased n space tally).isAtypical = true := h
  -- One goal for each field, and each is read off the erased facts.
  simp only [sheet, fields, List.map_cons, List.map_nil, List.forall_mem_cons,
    List.not_mem_nil, false_implies, implies_true, and_true, hatypical]
  and_intros <;> rfl

/-- A file whose number of declaration lines is not 1 keeps its number of lines, its namespace and
its tally.  All else is empty, in the facts and in every field of the sheet, so that two such files
that agree on the three are the same to the survey. -/
theorem ofSource_erased (source : Text) (h : Tally.declarationLines source ≠ 1) :
    ofSource source = erased (Text.lines source).length (declaredNamespace source)
      (ofSource source).tally ∧
    (ofSource source).declKind? = none ∧
    (∀ entry ∈ (ofSource source).sheet,
      entry.2.ErasedAs (Text.lines source).length (declaredNamespace source) entry.1) ∧
    ∀ other : Text, Tally.declarationLines other ≠ 1 →
      (ofSource other).lineCount = (ofSource source).lineCount →
      (ofSource other).namespaceName = (ofSource source).namespaceName →
      (ofSource other).tally = (ofSource source).tally →
      ofSource other = ofSource source := by
  have hatypical := isAtypical_iff_declarationLines.2 h
  have heq := ofSource_of_isAtypical hatypical
  refine ⟨heq, ?_, ?_, ?_⟩
  · rw [heq]
    rfl
  · intro entry hentry
    rw [heq] at hentry
    exact erasedAs_of_mem_sheet hatypical entry hentry
  · intro other hother hlines hspace htally
    have heq' := ofSource_of_isAtypical (isAtypical_iff_declarationLines.2 hother)
    rw [lineCount_ofSource, lineCount_ofSource] at hlines
    rw [namespaceName_ofSource, namespaceName_ofSource] at hspace
    rw [heq', heq, hlines, hspace, htally]

/-- Two declarations with all that can stand around them, and two without anything. -/
theorem ofSource_erased_class_and_enum :
    ofSource "namespace App;\nuse B;\nclass A extends B\n\x7b\n    const C;\nenum D\n".toList =
      ofSource "namespace App;\n\nenum E\n\n\nclass F\n".toList :=
  (ofSource_erased _ (by decide +kernel)).2.2.2 _ (by decide +kernel) (by decide +kernel)
    (by decide +kernel) (by decide +kernel)

end Facts

end DeclSurvey
