import DeclSurvey.Scan.Report
import Mathlib.Data.List.Basic

/-! # The accounts of a report

Every file that a scan comes to is in the accounts of its report once, or could not be read.

* `Report.surveyed?` is the entry that a file would have, and `Report.ofEntries` the report that
  holds given entries and counts them;
* `Report.add_ofEntries`: one more file is one more entry;
* `Report.ofFiles_eq_ofEntries`: the report on files is that on their entries, in their order.

All that is said about reports is read off the last one. -/

namespace DeclSurvey

namespace Report

/-! ### Entries -/

/-- The entry of a file in a scan of `root`, if its survey succeeds. -/
def surveyed? (extract : Text → Extraction) (root path : Text) : Option ReportEntry :=
  (extract path).result.toOption.map fun facts => ⟨Path.relativeTo root path, facts⟩

/-- The report that counts all of the entries, and holds all of them or the atypical ones. -/
def ofEntries (atypicalOnly : Bool) (entries : List ReportEntry) : Report :=
  { entries := entries.filter fun e => e.facts.isAtypical || !atypicalOnly
    checked := entries.length
    atypical := entries.countP fun e => e.facts.isAtypical }

section Entries
variable (extract : Text → Extraction) (root : Text) (atypicalOnly : Bool)

/-- A file that is put in front of a report is put in front of its entries. -/
theorem add_ofEntries (path : Text) (facts : Facts) (entries : List ReportEntry) :
    add root atypicalOnly path facts (ofEntries atypicalOnly entries) =
      ofEntries atypicalOnly (⟨Path.relativeTo root path, facts⟩ :: entries) := by
  unfold add ofEntries
  rw [List.filter_cons, List.length_cons, List.countP_cons]

/-- The report on files is the report on the entries that they have. -/
theorem ofFiles_eq_ofEntries (paths : List Text) :
    ofFiles extract root atypicalOnly paths =
      ofEntries atypicalOnly (paths.filterMap (surveyed? extract root)) := by
  induction paths with
  | nil => rfl
  | cons path paths ih =>
    rw [ofFiles, ih]
    cases hresult : (extract path).result with
    | ok facts =>
      have hentry : surveyed? extract root path = some ⟨Path.relativeTo root path, facts⟩ := by
        rw [surveyed?, hresult]
        rfl
      rw [List.filterMap_cons_some hentry]
      exact add_ofEntries root atypicalOnly path facts _
    | error e =>
      have hentry : surveyed? extract root path = none := by
        rw [surveyed?, hresult]
        rfl
      rw [List.filterMap_cons_none hentry]

/-- All files that are surveyed are counted. -/
theorem checked_ofFiles (paths : List Text) :
    (ofFiles extract root atypicalOnly paths).checked =
      paths.countP fun path => (extract path).result.isOk := by
  rw [ofFiles_eq_ofEntries]
  show (paths.filterMap (surveyed? extract root)).length = _
  rw [List.length_filterMap_eq_countP]
  congr 1
  funext path
  rw [surveyed?]
  cases (extract path).result <;> rfl

/-- The atypical ones among them are counted, whether the others are shown or not. -/
theorem atypical_ofFiles (paths : List Text) :
    (ofFiles extract root atypicalOnly paths).atypical =
      paths.countP fun path => (extract path).result.toOption.any (·.isAtypical) := by
  rw [ofFiles_eq_ofEntries]
  show (paths.filterMap (surveyed? extract root)).countP (fun e => e.facts.isAtypical) = _
  rw [List.countP_filterMap]
  congr 1
  funext path
  rw [surveyed?]
  cases (extract path).result <;> rfl

theorem entries_ofFiles_false (paths : List Text) :
    (ofFiles extract root false paths).entries = paths.filterMap (surveyed? extract root) := by
  rw [ofFiles_eq_ofEntries]
  show (paths.filterMap (surveyed? extract root)).filter (fun e => e.facts.isAtypical || true) = _
  rw [List.filter_eq_self]
  intro e _
  exact Bool.or_true _

theorem entries_ofFiles_true (paths : List Text) :
    (ofFiles extract root true paths).entries =
      (paths.filterMap (surveyed? extract root)).filter fun e => e.facts.isAtypical := by
  rw [ofFiles_eq_ofEntries]
  show (paths.filterMap (surveyed? extract root)).filter (fun e => e.facts.isAtypical || false) = _
  simp only [Bool.or_false]

theorem atypical_ofFiles_eq_length (paths : List Text) :
    (ofFiles extract root atypicalOnly paths).atypical =
      (ofFiles extract root true paths).entries.length := by
  rw [entries_ofFiles_true, ← List.countP_eq_length_filter, ofFiles_eq_ofEntries]
  rfl

end Entries

/-! ### Files that cannot be read -/

section Readable
variable (tree : Tree) (cwd : Place)

/-- Whether a path leads to a file that can be read. -/
def isReadable (path : Text) : Bool :=
  (tree.read cwd path).isOk

theorem surveyed?_of_not_isReadable (root : Text) {path : Text}
    (h : isReadable tree cwd path = false) :
    surveyed? (Extraction.ofPath tree cwd) root path = none := by
  unfold isReadable at h
  rw [surveyed?, Extraction.result_ofPath]
  cases hread : tree.read cwd path with
  | ok content =>
    rw [hread] at h
    cases h
  | error refusal => rfl

/-- A report is the same without the files that cannot be read. -/
theorem ofFiles_filter_isReadable (root : Text) (atypicalOnly : Bool) (paths : List Text) :
    ofFiles (Extraction.ofPath tree cwd) root atypicalOnly (paths.filter (isReadable tree cwd)) =
      ofFiles (Extraction.ofPath tree cwd) root atypicalOnly paths := by
  rw [ofFiles_eq_ofEntries, ofFiles_eq_ofEntries, List.filterMap_filter]
  congr 2
  funext path
  split
  · rfl
  · next h => exact (surveyed?_of_not_isReadable tree cwd root (Bool.eq_false_iff.2 h)).symm

end Readable

/-- A report counts the files whose survey succeeds and the atypical ones among them, whether it
shows all of them or the atypical ones alone.  Without the filter it shows each of these files
once, in their order; with it, it shows the atypical entries of the full report, as many as are
counted.  Files that cannot be read may be put in or left out anywhere. -/
theorem ofFiles_accounts (tree : Tree) (cwd : Place) (root : Text) (paths : List Text) :
    let extract := Extraction.ofPath tree cwd
    let report := ofFiles extract root
    (∀ atypicalOnly : Bool,
      (report atypicalOnly paths).checked = paths.countP (fun path => (extract path).result.isOk) ∧
      (report atypicalOnly paths).atypical =
        paths.countP (fun path => (extract path).result.toOption.any (·.isAtypical))) ∧
    (report false paths).entries = paths.filterMap (surveyed? extract root) ∧
    (report true paths).entries = (report false paths).entries.filter (·.facts.isAtypical) ∧
    (report true paths).checked = (report false paths).checked ∧
    (report true paths).atypical = (report false paths).atypical ∧
    (∀ atypicalOnly : Bool,
      (report atypicalOnly paths).atypical = (report true paths).entries.length) ∧
    ∀ others : List Text,
      others.filter (isReadable tree cwd) = paths.filter (isReadable tree cwd) →
        ∀ atypicalOnly : Bool, report atypicalOnly others = report atypicalOnly paths := by
  intro extract report
  have hfull : (report false paths).entries = paths.filterMap (surveyed? extract root) :=
    entries_ofFiles_false extract root paths
  have hchecked : ∀ b, (report b paths).checked = _ :=
    fun b => checked_ofFiles extract root b paths
  have hatypical : ∀ b, (report b paths).atypical = _ :=
    fun b => atypical_ofFiles extract root b paths
  have hshown : (report true paths).entries =
      (report false paths).entries.filter (·.facts.isAtypical) := by
    rw [hfull]
    exact entries_ofFiles_true extract root paths
  refine ⟨fun b => ⟨hchecked b, hatypical b⟩, hfull, hshown, ?_, ?_, ?_, ?_⟩
  · rw [hchecked, hchecked]
  · rw [hatypical, hatypical]
  · intro atypicalOnly
    exact atypical_ofFiles_eq_length extract root atypicalOnly paths
  · intro others hothers atypicalOnly
    calc report atypicalOnly others
        = report atypicalOnly (others.filter (isReadable tree cwd)) :=
          (ofFiles_filter_isReadable tree cwd root atypicalOnly others).symm
      _ = report atypicalOnly (paths.filter (isReadable tree cwd)) := by rw [hothers]
      _ = report atypicalOnly paths := ofFiles_filter_isReadable tree cwd root atypicalOnly paths

/-- A typical file, an atypical one, and one between them that cannot be read: the report is that
on the other two. -/
theorem ofFiles_accounts_broken :
    let tree : Tree := ⟨[(["A".toList], .file (Utf8.encode "class A".toList)),
      (["B".toList], .brokenFile), (["C".toList], .file [])]⟩
    ∀ atypicalOnly : Bool,
      ofFiles (Extraction.ofPath tree []) ['.'] atypicalOnly
          ["A".toList, "B".toList, "C".toList] =
        ofFiles (Extraction.ofPath tree []) ['.'] atypicalOnly ["A".toList, "C".toList] := by
  intro tree
  have haccounts := ofFiles_accounts tree [] ['.'] ["A".toList, "C".toList]
  exact haccounts.2.2.2.2.2.2 ["A".toList, "B".toList, "C".toList] (by decide +kernel)

end Report

end DeclSurvey
