import DeclSurvey.Command.Outcome
import Mathlib.Data.List.Lex

/-! # Discovery is exact

Which files a scan surveys does not depend on the order in which a walk comes to them.

* `Path.Before`: the order of paths, component by component, and `Path.before_iff_key_lt`, by which
  it is the order of their keys;
* `Path.eq_of_ascending`: an ascending list is known by its members;
* `Discovery.mem_select` and `Discovery.ascending_select`: what is selected, and in which order;
* `Discovery.ofWalk_map_ok`, `Discovery.exists_error_of_mem`: a walk without a failure, and one
  with a failure. -/

namespace DeclSurvey

/-! ### The order of paths -/

/-- Lists of keys are ordered as the lists that they are keys of. -/
theorem lex_map_iff {α β : Type} {r : β → β → Prop} {f : α → β} (hf : Function.Injective f)
    {l m : List α} : List.Lex r (l.map f) (m.map f) ↔ List.Lex (fun a b => r (f a) (f b)) l m := by
  induction l generalizing m with
  | nil => cases m <;> simp
  | cons a l ih =>
    cases m with
    | nil => simp
    | cons b m => simp [List.cons_lex_cons_iff, hf.eq_iff, ih]

namespace Path

namespace Component

/-- The place of a sort of component among all sorts. -/
def rank : Component → Nat
  | root => 0
  | current => 1
  | parent => 2
  | name _ => 3

/-- Whether a component comes before another. -/
inductive Before : Component → Component → Prop where
  /-- The root, the dot, two dots and names come in this order. -/
  | sort {c d : Component} (h : c.rank < d.rank) : Before c d
  /-- Names are ordered by their characters. -/
  | name {t u : Text} (h : t < u) : Before (name t) (name u)

theorem before_iff {c d : Component} :
    Before c d ↔ c.rank < d.rank ∨ ∃ t u, c = name t ∧ d = name u ∧ t < u := by
  constructor
  · intro h
    cases h with
    | sort h => exact Or.inl h
    | name h => exact Or.inr ⟨_, _, rfl, rfl, h⟩
  · intro h
    rcases h with h | ⟨t, u, rfl, rfl, h⟩
    · exact Before.sort h
    · exact Before.name h

theorem map_toNat_lt_iff {t u : Text} : t.map Char.toNat < u.map Char.toNat ↔ t < u :=
  lex_map_iff fun _ _ => Char.toNat_inj.1

theorem before_iff_key_lt {c d : Component} : Before c d ↔ c.key < d.key := by
  rw [before_iff]
  -- Keys start with the rank, and only names have more to them.
  cases c <;> cases d <;> simp [rank, key, List.cons_lt_cons_iff, map_toNat_lt_iff]

theorem key_injective : Function.Injective key := by
  have hchars : Function.Injective (List.map Char.toNat) :=
    List.map_injective_iff.2 fun _ _ => Char.toNat_inj.1
  intro c d h
  cases c <;> cases d <;> simp_all [key, hchars.eq_iff]

end Component

/-- Whether a path comes before another: at the first component in which they differ, or because
it ends there. -/
def Before (p q : Text) : Prop :=
  List.Lex Component.Before (components p) (components q)

theorem before_iff_key_lt {p q : Text} : Before p q ↔ key p < key q := by
  have hkey : Component.Before = fun c d => c.key < d.key := by
    funext c d
    exact propext Component.before_iff_key_lt
  unfold Before key
  rw [hkey]
  exact (lex_map_iff Component.key_injective).symm

theorem key_eq_iff {p q : Text} : key p = key q ↔ components p = components q :=
  (List.map_injective_iff.2 Component.key_injective).eq_iff

theorem keyBefore_iff {a b : List (List Nat)} : keyBefore a b = true ↔ a < b := by
  have hinner : (fun x y : List Nat => List.lex x y Nat.blt = true) = fun x y => x < y := by
    funext x y
    simp only [List.lex_eq_true_iff_lex, Nat.blt_eq]
    rfl
  unfold keyBefore
  rw [List.lex_eq_true_iff_lex, hinner]
  rfl

theorem le_iff {p q : Text} : le p q = true ↔ key p ≤ key q := by
  unfold le
  rw [Bool.not_eq_true', Bool.eq_false_iff, ne_eq, keyBefore_iff, not_lt]

theorem le_trans (p q r : Text) (hpq : le p q = true) (hqr : le q r = true) : le p r = true := by
  rw [le_iff] at hpq hqr ⊢
  exact hpq.trans hqr

theorem le_total (p q : Text) : (le p q || le q p) = true := by
  rw [Bool.or_eq_true, le_iff, le_iff]
  exact LinearOrder.le_total (key p) (key q)

theorem nodup_of_ascending {ps : List Text} (h : ps.Pairwise Before) : ps.Nodup := by
  apply h.imp
  intro p q hpq heq
  rw [heq, before_iff_key_lt] at hpq
  exact lt_irrefl _ hpq

/-- An ascending list is known by its members. -/
theorem eq_of_ascending {ps qs : List Text} (hps : ps.Pairwise Before) (hqs : qs.Pairwise Before)
    (h : ∀ p, p ∈ ps ↔ p ∈ qs) : ps = qs := by
  have hperm : ps.Perm qs :=
    (List.perm_ext_iff_of_nodup (nodup_of_ascending hps) (nodup_of_ascending hqs)).2 h
  refine hperm.eq_of_pairwise ?_ hps hqs
  intro p q _ _ hpq hqp
  rw [before_iff_key_lt] at hpq hqp
  exact absurd hqp hpq.asymm

end Path

namespace Discovery

/-! ### What is selected -/

section Select
variable {isFile : Text → Bool} {settings : Settings} {root path : Text} {walked : List Text}

theorem mem_select :
    path ∈ select isFile settings root walked ↔
      path ∈ walked ∧ isFile path = true ∧ settings.matchesExtension path = true ∧
        settings.isExcluded (Path.relativeTo root path) = false := by
  unfold select
  rw [List.mem_mergeSort, List.mem_filter]
  simp [isCandidate, isExcluded, and_assoc]

/-- Paths with different components are selected in ascending order. -/
theorem ascending_select (hdistinct : (walked.map Path.components).Nodup) :
    (select isFile settings root walked).Pairwise Path.Before := by
  have hsorted : (select isFile settings root walked).Pairwise fun p q => Path.le p q = true :=
    List.pairwise_mergeSort Path.le_trans Path.le_total _
  have hne : (select isFile settings root walked).Pairwise fun p q =>
      Path.components p ≠ Path.components q := by
    have hwalked : walked.Pairwise fun p q => Path.components p ≠ Path.components q :=
      List.pairwise_map.1 hdistinct
    exact (List.mergeSort_perm _ _).symm.pairwise (hwalked.filter _) Ne.symm
  refine (hsorted.and hne).imp ?_
  intro p q h
  rw [Path.before_iff_key_lt]
  exact lt_of_le_of_ne (Path.le_iff.1 h.1) (fun heq => h.2 (Path.key_eq_iff.1 heq))

/-- The order of the walk does not matter. -/
theorem select_eq_of_perm (hdistinct : (walked.map Path.components).Nodup) {other : List Text}
    (hperm : other.Perm walked) :
    select isFile settings root other = select isFile settings root walked := by
  have hother : (other.map Path.components).Nodup :=
    (hperm.map Path.components).nodup_iff.2 hdistinct
  apply Path.eq_of_ascending (ascending_select hother) (ascending_select hdistinct)
  intro path
  rw [mem_select, mem_select, hperm.mem_iff]

/-- Further patterns take out what they exclude by themselves. -/
theorem select_excluding (hdistinct : (walked.map Path.components).Nodup)
    (patterns : List Text) :
    select isFile (settings.excluding patterns) root walked =
      (select isFile settings root walked).filter fun path =>
        !Settings.isExcluded { settings with exclude := patterns } (Path.relativeTo root path) := by
  apply Path.eq_of_ascending (ascending_select hdistinct) ((ascending_select hdistinct).filter _)
  intro path
  have hextension : (settings.excluding patterns).matchesExtension path =
      settings.matchesExtension path := rfl
  have halone : Settings.isExcluded { settings with exclude := patterns }
      (Path.relativeTo root path) =
        patterns.any (Settings.excludedBy (Path.relativeTo root path)) := rfl
  rw [List.mem_filter, mem_select, mem_select, hextension, Settings.isExcluded_excluding, halone,
    Bool.or_eq_false_iff, Bool.not_eq_true']
  simp only [and_assoc]

end Select

/-! ### Walks -/

section Walk
variable {isFile : Text → Bool} {settings : Settings} {root : Text}

theorem ofWalk_map_ok (walked : List Text) :
    ofWalk isFile settings root (walked.map .ok) = .ok (select isFile settings root walked) := by
  have hpaths : (walked.map Except.ok : List Walk.Entry).mapM id = .ok walked := by
    induction walked with
    | nil => rfl
    | cons path walked ih =>
      rw [List.map_cons, List.mapM_cons, ih]
      rfl
  unfold ofWalk
  rw [hpaths]
  rfl

/-- A walk that fails anywhere gives no files. -/
theorem exists_error_of_mem {entries : List Walk.Entry} {f : Walk.Failure}
    (h : .error f ∈ entries) : ∃ g, ofWalk isFile settings root entries = .error g := by
  have hpaths : ∃ g, entries.mapM id = .error g := by
    induction entries with
    | nil => cases h
    | cons entry entries ih =>
      rw [List.mapM_cons]
      cases entry with
      | error g => exact ⟨g, rfl⟩
      | ok path =>
        have hrest : .error f ∈ entries := by simpa using h
        obtain ⟨g, hg⟩ := ih hrest
        exact ⟨g, by rw [hg]; rfl⟩
  obtain ⟨g, hg⟩ := hpaths
  refine ⟨g, ?_⟩
  unfold ofWalk
  rw [hg]
  rfl

end Walk

/-- Among paths that a walk yields without failure, no two of them with the same components, the
files with an extension of the settings that no pattern excludes are found, each once and in
ascending order, whatever the order of the walk.  Further patterns take out exactly what they
exclude by themselves.  A walk that yields a failure makes the scan fail without a report. -/
theorem ofWalk_exact (env : Environment) (tree : Tree) (settings : Settings) (root : Text)
    (walked : List Text) (hdistinct : (walked.map Path.components).Nodup) :
    (∃ files, ofWalk (tree.isFile env.cwd) settings root (walked.map .ok) = .ok files ∧
      (∀ path, path ∈ files ↔
        path ∈ walked ∧ tree.isFile env.cwd path = true ∧
          settings.matchesExtension path = true ∧
          settings.isExcluded (Path.relativeTo root path) = false) ∧
      files.Nodup ∧ files.Pairwise Path.Before ∧
      (∀ other : List Text, other.Perm walked →
        ofWalk (tree.isFile env.cwd) settings root (other.map .ok) = .ok files) ∧
      ∀ patterns : List Text,
        ofWalk (tree.isFile env.cwd) (settings.excluding patterns) root (walked.map .ok) =
          .ok (files.filter fun path =>
            !Settings.isExcluded { settings with exclude := patterns }
              (Path.relativeTo root path))) ∧
    ∀ (entries : List Walk.Entry) (f : Walk.Failure), .error f ∈ entries →
      (∃ g, ofWalk (tree.isFile env.cwd) settings root entries = .error g) ∧
      ∀ (log : List LogLine) (format : Format) (atypicalOnly : Bool),
        (Outcome.scanWalk env tree log root settings format atypicalOnly entries).exit ≠ 0 ∧
        (Outcome.scanWalk env tree log root settings format atypicalOnly entries).output = [] := by
  refine ⟨⟨_, ofWalk_map_ok walked, ?_, ?_, ascending_select hdistinct, ?_, ?_⟩, ?_⟩
  · intro path
    exact mem_select
  · exact Path.nodup_of_ascending (ascending_select hdistinct)
  · intro other hperm
    rw [ofWalk_map_ok, select_eq_of_perm hdistinct hperm]
  · intro patterns
    rw [ofWalk_map_ok, select_excluding hdistinct]
  · intro entries f hf
    obtain ⟨g, hg⟩ := @exists_error_of_mem (tree.isFile env.cwd) settings root entries f hf
    refine ⟨⟨g, hg⟩, ?_⟩
    intro log format atypicalOnly
    unfold Outcome.scanWalk
    simp only [hg]
    exact ⟨Nat.one_ne_zero, rfl⟩

/-- A file in a directory, one beside it, and one that others have written. -/
def threeFiles : Tree :=
  ⟨[(["a".toList], .directory), (["a".toList, "z.php".toList], .file []),
    (["a-b.php".toList], .file []), (["vendor".toList], .directory),
    (["vendor".toList, "c.php".toList], .file [])]⟩

/-- Two files are found, in the order of their paths and not of their texts, whichever of them the
walk comes to first.  The third is excluded by a pattern of the settings, and a further pattern
takes out one more. -/
theorem ofWalk_exact_of_two :
    ∃ files fewer,
      (∀ walked ∈ [["./a-b.php".toList, "./vendor/c.php".toList, "./a/z.php".toList],
          ["./a/z.php".toList, "./vendor/c.php".toList, "./a-b.php".toList]],
        ofWalk (threeFiles.isFile []) { exclude := ["**/vendor/**".toList] } ['.']
          (walked.map .ok) = .ok files) ∧
      "./a/z.php".toList ∈ files ∧ "./a-b.php".toList ∈ files ∧ "./vendor/c.php".toList ∉ files ∧
      files.Pairwise Path.Before ∧ Path.Before "./a/z.php".toList "./a-b.php".toList ∧
      ofWalk (threeFiles.isFile [])
          (Settings.excluding { exclude := ["**/vendor/**".toList] } ["a/*".toList]) ['.']
          (["./a-b.php".toList, "./vendor/c.php".toList, "./a/z.php".toList].map .ok) =
        .ok fewer ∧
      "./a/z.php".toList ∉ fewer ∧ "./a-b.php".toList ∈ fewer := by
  obtain ⟨⟨files, hfiles, hmem, -, hascending, hperm, hfewer⟩, -⟩ := ofWalk_exact ⟨[], none, none⟩
    threeFiles { exclude := ["**/vendor/**".toList] } ['.']
    ["./a-b.php".toList, "./vendor/c.php".toList, "./a/z.php".toList] (by decide +kernel)
  have hnested : "./a/z.php".toList ∈ files := by
    rw [hmem]
    decide +kernel
  have hbeside : "./a-b.php".toList ∈ files := by
    rw [hmem]
    decide +kernel
  refine ⟨files, _, ?_, hnested, hbeside, ?_, hascending, ?_, hfewer ["a/*".toList], ?_, ?_⟩
  · intro walked hwalked
    apply hperm
    revert walked
    decide
  · rw [hmem]
    decide +kernel
  · rw [Path.before_iff_key_lt, ← Path.keyBefore_iff]
    decide +kernel
  · rw [List.mem_filter, not_and]
    intro _
    decide +kernel
  · rw [List.mem_filter]
    exact ⟨hbeside, by decide +kernel⟩

end Discovery

end DeclSurvey
