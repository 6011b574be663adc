import DeclSurvey.Proofs.Discovery
import DeclSurvey.Proofs.Text
import Mathlib.Data.List.Nodup

/-! # The paths of a walk

A walk gives each node below its root the path that leads there along names.  What a pattern is
held against is that path as seen from the root.

* `Path.components_join`: a name put behind a path is one more component;
* `Walk.components_pathOf` and `Walk.relativeTo_pathOf`: so the components of a walked path are
  those of the root and then the names, and from the root it is seen as the names with slashes
  between them, however the root is written;
* `Tree.WellFormed`: trees whose places are made of names, as `Tree.put` makes them;
* `Walk.exists_of_paths`: all that a walk yields;
* `Walk.nodup_components_paths`: no two paths of a walk have the same components;
* `Discovery.ofWalk_entries`: which files a scan finds in a tree, by the names that lead to them. -/

namespace DeclSurvey

namespace Path

/-! ### Names behind a path -/

/-- A text that can be the name of a file: it is one component of a path and stands for itself. -/
structure IsName (t : Text) : Prop where
  /-- It is not cut in two. -/
  slash_not_mem : '/' ∉ t
  /-- It is neither empty nor one of the texts of dots that have a meaning. -/
  ofPart?_eq : Component.ofPart? t = some (.name t)

instance (t : Text) : Decidable (IsName t) :=
  decidable_of_iff ('/' ∉ t ∧ Component.ofPart? t = some (.name t))
    ⟨fun h => ⟨h.1, h.2⟩, fun h => ⟨h.1, h.2⟩⟩

theorem IsName.ne_dot {t : Text} (h : IsName t) : t ≠ ['.'] := by
  rintro rfl
  exact absurd h.ofPart?_eq (by decide)

theorem IsName.not_isAbsolute {t : Text} (h : IsName t) : isAbsolute t = false := by
  rw [isAbsolute, ← Bool.not_eq_true, List.isPrefixOf_iff_prefix]
  rintro ⟨rest, rfl⟩
  exact h.slash_not_mem (by simp)

theorem components_slash (rest : Text) :
    components ('/' :: rest) =
      .root :: (Text.splitChar '/' rest).filterMap Component.ofPart? := by
  unfold components
  rw [Text.splitChar, if_pos rfl]
  rfl

/-- What follows a slash adds its components to those of the path in front. -/
theorem components_append_slash {base : Text} (h : base ≠ []) (rest : Text) :
    components (base ++ '/' :: rest) =
      components base ++ (Text.splitChar '/' rest).filterMap Component.ofPart? := by
  have habsolute : isAbsolute (base ++ '/' :: rest) = isAbsolute base := by
    cases base with
    | nil => exact absurd rfl h
    | cons c base => rfl
  have hhead : (Text.splitChar '/' base ++ Text.splitChar '/' rest).head? =
      (Text.splitChar '/' base).head? :=
    List.head?_append_of_ne_nil _ (Text.splitChar_ne_nil '/' base)
  unfold components
  rw [habsolute, Text.splitChar_append_sep]
  simp only [hhead, List.filterMap_append, List.append_assoc]

theorem components_name {t : Text} (h : IsName t) : components t = [.name t] := by
  have hdot : ¬ ([t].head? == some ['.']) = true := by
    simpa using h.ne_dot
  unfold components
  rw [Text.splitChar_of_not_mem h.slash_not_mem, h.not_isAbsolute]
  dsimp only
  rw [if_neg (by decide), if_neg hdot, List.filterMap_cons_some h.ofPart?_eq]
  rfl

/-- A name behind a path is one more component, whether or not a slash has to be put between. -/
theorem components_join (base : Text) {t : Text} (h : IsName t) :
    components (join base t) = components base ++ [.name t] := by
  have hparts : (Text.splitChar '/' t).filterMap Component.ofPart? = [.name t] := by
    rw [Text.splitChar_of_not_mem h.slash_not_mem, List.filterMap_cons_some h.ofPart?_eq]
    rfl
  unfold join
  rw [h.not_isAbsolute, Bool.false_or]
  split
  · next hempty =>
    rw [List.isEmpty_iff.1 hempty, components_name h]
    rfl
  · next hempty =>
    have hne : base ≠ [] := fun hnil => hempty (List.isEmpty_iff.2 hnil)
    split
    · next hslash =>
      obtain ⟨front, rfl⟩ := List.isSuffixOf_iff_suffix.1 hslash
      rw [List.append_assoc, List.singleton_append]
      by_cases hfront : front = []
      · rw [hfront, List.nil_append, List.nil_append, components_slash, components_slash, hparts]
        rfl
      · rw [components_append_slash hfront, components_append_slash hfront, hparts,
          List.append_assoc]
        rfl
    · rw [components_append_slash hne, hparts]

end Path

namespace Tree

/-! ### Trees made of names -/

/-- The places of the nodes. -/
def places (tree : Tree) : List Place :=
  tree.nodes.map Prod.fst

/-- No place has two nodes, and places are made of names. -/
structure WellFormed (tree : Tree) : Prop where
  /-- Each place has one node. -/
  nodup : tree.places.Nodup
  /-- What leads to a place are names. -/
  isName : ∀ place ∈ tree.places, ∀ t ∈ place, Path.IsName t

theorem map_fst_putIn (place : Place) (n : Node) (nodes : List (Place × Node)) :
    (putIn place n nodes).map Prod.fst =
      if place ∈ nodes.map Prod.fst then nodes.map Prod.fst else nodes.map Prod.fst ++ [place] := by
  induction nodes with
  | nil => rfl
  | cons entry nodes ih =>
    obtain ⟨p, m⟩ := entry
    rw [putIn]
    by_cases hp : p = place
    · simp [hp]
    · rw [if_neg hp, List.map_cons, ih]
      have hne : place ≠ p := Ne.symm hp
      by_cases hmem : place ∈ nodes.map Prod.fst <;> simp_all

/-- Putting a node at a place made of names keeps a tree well formed. -/
theorem WellFormed.put {tree : Tree} (h : tree.WellFormed) {place : Place}
    (hplace : ∀ t ∈ place, Path.IsName t) (n : Node) : (tree.put place n).WellFormed := by
  have hplaces : (tree.put place n).places =
      if place ∈ tree.places then tree.places else tree.places ++ [place] :=
    map_fst_putIn place n tree.nodes
  by_cases hmem : place ∈ tree.places
  · rw [if_pos hmem] at hplaces
    exact ⟨hplaces ▸ h.nodup, hplaces ▸ h.isName⟩
  · rw [if_neg hmem] at hplaces
    constructor
    · rw [hplaces]
      exact List.Nodup.append h.nodup (List.nodup_singleton place)
        (List.disjoint_singleton.2 hmem)
    · intro p hp
      rw [hplaces, List.mem_append, List.mem_singleton] at hp
      rcases hp with hp | rfl
      · exact h.isName p hp
      · exact hplace

/-- The names that lead from a place to one strictly below it. -/
def nameBelow? (place p : Place) : Option Place :=
  if place.isPrefixOf p && place.length < p.length then some (p.drop place.length) else none

theorem nameBelow?_eq_some_iff {place p names : Place} :
    nameBelow? place p = some names ↔ names ≠ [] ∧ p = place ++ names := by
  unfold nameBelow?
  simp only [Option.ite_none_right_eq_some, Bool.and_eq_true, List.isPrefixOf_iff_prefix,
    decide_eq_true_eq, Option.some.injEq]
  constructor
  · rintro ⟨⟨⟨rest, rfl⟩, hlength⟩, rfl⟩
    rw [List.drop_left]
    refine ⟨?_, rfl⟩
    rintro rfl
    simp at hlength
  · rintro ⟨hne, rfl⟩
    have hlength : 0 < names.length := List.length_pos_iff.2 hne
    exact ⟨⟨List.prefix_append place names, by simp [hlength]⟩, List.drop_left⟩

theorem map_fst_below (tree : Tree) (place : Place) :
    (tree.below place).map Prod.fst = tree.places.filterMap (nameBelow? place) := by
  unfold below places
  rw [List.map_filterMap, List.filterMap_map]
  congr 1
  funext entry
  simp only [nameBelow?, Function.comp_apply, apply_ite (Option.map Prod.fst), Option.map_some,
    Option.map_none]

section Below
variable {tree : Tree} {place names : Place}

theorem mem_below_iff :
    names ∈ (tree.below place).map Prod.fst ↔ names ≠ [] ∧ place ++ names ∈ tree.places := by
  rw [map_fst_below, List.mem_filterMap]
  simp only [nameBelow?_eq_some_iff]
  constructor
  · rintro ⟨p, hp, hne, rfl⟩
    exact ⟨hne, hp⟩
  · rintro ⟨hne, hp⟩
    exact ⟨_, hp, hne, rfl⟩

/-- Each node below a place has names of its own that lead to it. -/
theorem WellFormed.nodup_below (h : tree.WellFormed) :
    ([] :: (tree.below place).map Prod.fst).Nodup := by
  rw [List.nodup_cons]
  constructor
  · intro hmem
    exact (mem_below_iff.1 hmem).1 rfl
  · rw [map_fst_below]
    apply List.Pairwise.filterMap _ _ h.nodup
    intro p q hpq names hp other hq heq
    apply hpq
    rw [(nameBelow?_eq_some_iff.1 hp).2, (nameBelow?_eq_some_iff.1 hq).2, heq]

theorem WellFormed.isName_of_mem_below (h : tree.WellFormed)
    (hnames : names ∈ (tree.below place).map Prod.fst) : ∀ t ∈ names, Path.IsName t := by
  intro t ht
  exact h.isName _ (mem_below_iff.1 hnames).2 t (List.mem_append_right place ht)

end Below

end Tree

namespace Walk

/-! ### Walked paths -/

section PathOf
variable (root : Text) {names : Place} (h : ∀ t ∈ names, Path.IsName t)
include h

theorem components_pathOf :
    Path.components (pathOf root names) = Path.components root ++ names.map .name := by
  induction names generalizing root with
  | nil => exact (List.append_nil _).symm
  | cons t names ih =>
    have hrest : ∀ u ∈ names, Path.IsName u := fun u hu => h u (List.mem_cons_of_mem t hu)
    show Path.components (pathOf (Path.join root t) names) = _
    rw [ih (Path.join root t) hrest, Path.components_join root (h t List.mem_cons_self),
      List.append_assoc]
    rfl

/-- Seen from the root, a walked path is the names that lead to it, whether the root ends with a
slash, is a dot or is written in any other way. -/
theorem relativeTo_pathOf :
    Path.relativeTo root (pathOf root names) = Text.joinWith ['/'] names := by
  have hfront : (Path.components root).isPrefixOf
      (Path.components root ++ names.map Path.Component.name) = true :=
    List.isPrefixOf_iff_prefix.2 (List.prefix_append _ _)
  have htext : (names.map Path.Component.name).map Path.Component.text = names := by
    rw [List.map_map]
    exact List.map_id names
  unfold Path.relativeTo
  simp only [components_pathOf root h, hfront, if_true, List.drop_left, htext]

end PathOf

example : Path.relativeTo "./src/".toList (pathOf "./src/".toList ["a".toList, "b.php".toList]) =
    "a/b.php".toList := by
  decide +kernel

section Paths
variable {tree : Tree} {cwd place : Place} {root : Text}

/-- A walk yields its root, and paths to nodes below it along the names that lead there. -/
theorem exists_of_paths (respectGitignore : Bool) (hroot : tree.resolve cwd root = .ok place) :
    ∃ found : List Place,
      paths tree cwd respectGitignore root = .ok (([] :: found).map (pathOf root)) ∧
      found.Sublist ((tree.below place).map Prod.fst) := by
  have hpaths : ∀ reached : Place × Node → Bool,
      root :: ((tree.below place).filter reached).map (pathOf root ∘ Prod.fst) =
        ([] :: ((tree.below place).filter reached).map Prod.fst).map (pathOf root) := by
    intro reached
    rw [List.map_cons, List.map_map]
    rfl
  unfold paths
  rw [hroot]
  exact ⟨_, congrArg Except.ok (hpaths _), List.filter_sublist.map Prod.fst⟩

section Found
variable (htree : tree.WellFormed) {found : List Place}
  (hfound : found.Sublist ((tree.below place).map Prod.fst))
include htree hfound

theorem isName_of_found {names : Place} (h : names ∈ [] :: found) :
    ∀ t ∈ names, Path.IsName t := by
  rcases List.mem_cons.1 h with rfl | h
  · intro t ht
    cases ht
  · exact htree.isName_of_mem_below (hfound.subset h)

/-- No two paths of a walk have the same components. -/
theorem nodup_components_paths (root : Text) :
    ((([] :: found).map (pathOf root)).map Path.components).Nodup := by
  have hnames : ([] :: found).Nodup := htree.nodup_below.sublist (hfound.cons_cons [])
  rw [List.map_map, List.Nodup, List.pairwise_map]
  refine hnames.imp_of_mem ?_
  intro names other hmem hother hne heq
  apply hne
  rw [Function.comp_apply, Function.comp_apply,
    components_pathOf root (isName_of_found htree hfound hmem),
    components_pathOf root (isName_of_found htree hfound hother)] at heq
  have hinjective : Function.Injective (List.map Path.Component.name) :=
    List.map_injective_iff.2 fun t u h => Path.Component.name.inj h
  exact hinjective (List.append_cancel_left heq)

end Found

end Paths

end Walk

namespace Discovery

/-- In a well-formed tree, the walk of a scan comes to its root and to places below it.  The scan
finds the files among them with an extension of the settings, in ascending order, except those
whose names with slashes between them are excluded by a pattern. -/
theorem ofWalk_entries {tree : Tree} (htree : tree.WellFormed) {cwd place : Place} {root : Text}
    (hroot : tree.resolve cwd root = .ok place) (isFile : Text → Bool) (settings : Settings) :
    ∃ (found : List Place) (files : List Text),
      Walk.entries tree cwd settings.respectGitignore root =
        (([] :: found).map (Walk.pathOf root)).map .ok ∧
      found.Sublist ((tree.below place).map Prod.fst) ∧
      ofWalk isFile settings root (Walk.entries tree cwd settings.respectGitignore root) =
        .ok files ∧
      files.Pairwise Path.Before ∧
      ∀ path, path ∈ files ↔ ∃ names ∈ [] :: found, path = Walk.pathOf root names ∧
        isFile path = true ∧ settings.matchesExtension path = true ∧
        settings.isExcluded (Text.joinWith ['/'] names) = false := by
  obtain ⟨found, hpaths, hfound⟩ := Walk.exists_of_paths settings.respectGitignore hroot
  have hentries : Walk.entries tree cwd settings.respectGitignore root =
      (([] :: found).map (Walk.pathOf root)).map .ok := by
    unfold Walk.entries
    rw [hpaths]
  refine ⟨found, select isFile settings root (([] :: found).map (Walk.pathOf root)), hentries,
    hfound, ?_, ascending_select (Walk.nodup_components_paths htree hfound root), ?_⟩
  · rw [hentries]
    exact ofWalk_map_ok _
  · intro path
    rw [mem_select, List.mem_map]
    constructor
    · rintro ⟨⟨names, hnames, rfl⟩, hfile, hextension, hexcluded⟩
      rw [Walk.relativeTo_pathOf root (Walk.isName_of_found htree hfound hnames)] at hexcluded
      exact ⟨names, hnames, rfl, hfile, hextension, hexcluded⟩
    · rintro ⟨names, hnames, rfl, hfile, hextension, hexcluded⟩
      rw [← Walk.relativeTo_pathOf root (Walk.isName_of_found htree hfound hnames)] at hexcluded
      exact ⟨⟨names, hnames, rfl⟩, hfile, hextension, hexcluded⟩

end Discovery

end DeclSurvey
