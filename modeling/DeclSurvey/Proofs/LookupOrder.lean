import DeclSurvey.Command.Outcome
import Mathlib.Data.List.TakeWhile

/-! # The first candidate decides

Settings are looked for in several places, one after the other.  The first candidate that counts
is final: what stands behind it is not looked at, not even when the candidate gives no settings.

* `Lookup.candidates`: all candidates in their order, of which a file named on the command line
  counts in any case and other files if they exist;
* `Lookup.candidates_eq`: the chosen source is the first candidate that counts;
* `Configuration.load_fails_iff`: which files give no settings;
* `Lookup.SameLead`: trees that are the same down to the chosen candidate, with
  `Lookup.chosen_eq_of_sameLead` and `Lookup.loaded_eq_of_sameLead`, by which nothing else
  matters. -/

namespace DeclSurvey

/-! ### Files without settings -/

/-- What reading a node gives. -/
def Node.content : Node → Except Refusal Bytes
  | directory => .error .isDirectory
  | brokenFile => .error .device
  | file content => .ok content

namespace Tree
variable {tree : Tree} {cwd : Place} {path : Text}

theorem read_of_find_error {r : Refusal} (h : tree.find cwd path = .error r) :
    tree.read cwd path = .error r := by
  unfold read
  rw [h]
  rfl

theorem read_of_find_ok {n : Node} (h : tree.find cwd path = .ok n) :
    tree.read cwd path = n.content := by
  unfold read
  rw [h]
  cases n <;> rfl

end Tree

namespace Configuration
variable {tree : Tree} {cwd : Place} {path : Text}

/-- Why what a path leads to gives no settings. -/
inductive Unusable (tree : Tree) (cwd : Place) (path : Text) : Prop where
  /-- The path leads nowhere. -/
  | missing (h : tree.pathExists cwd path = false)
  /-- It leads to a directory. -/
  | directory (h : tree.find cwd path = .ok .directory)
  /-- It leads to a file of which reading fails. -/
  | broken (h : tree.find cwd path = .ok .brokenFile)
  /-- The bytes of the file are no text. -/
  | notText (content : Bytes) (h : tree.find cwd path = .ok (.file content))
      (hdecode : Utf8.decode? content = none)
  /-- The text of the file is no document, or one with values of the wrong type. -/
  | invalid (content : Bytes) (t : Text) (h : tree.find cwd path = .ok (.file content))
      (hdecode : Utf8.decode? content = some t)
      (hparse : (Toml.Document.parse? t).bind ofDocument? = none)

theorem load_of_refused {r : Refusal} (h : tree.read cwd path = .error r) :
    load tree cwd path = .error (.unreadable path (.refused r)) := by
  unfold load readText
  rw [h]

theorem load_of_file {content : Bytes} (h : tree.find cwd path = .ok (.file content)) :
    load tree cwd path =
      match Utf8.decode? content with
      | some t => parse t
      | none => .error (.unreadable path .notText) := by
  have hread : tree.read cwd path = .ok content := Tree.read_of_find_ok h
  simp only [load, readText, hread]
  cases Utf8.decode? content with
  | some t => rfl
  | none => rfl

/-- Settings depend on nothing but what reading their file gives. -/
theorem load_eq_of_read_eq {other : Tree} (h : other.read cwd path = tree.read cwd path) :
    load other cwd path = load tree cwd path := by
  unfold load readText
  rw [h]

theorem load_fails_of_unusable (h : Unusable tree cwd path) :
    ∃ f, load tree cwd path = .error f := by
  cases h with
  | missing h =>
    unfold Tree.pathExists at h
    split at h
    · cases h
    · next r hfind => exact ⟨_, load_of_refused (Tree.read_of_find_error hfind)⟩
  | directory h => exact ⟨_, load_of_refused (Tree.read_of_find_ok h)⟩
  | broken h => exact ⟨_, load_of_refused (Tree.read_of_find_ok h)⟩
  | notText content h hdecode => exact ⟨_, by rw [load_of_file h, hdecode]⟩
  | invalid content t h hdecode hparse =>
    refine ⟨.invalid, ?_⟩
    rw [load_of_file h, hdecode]
    show parse t = _
    unfold parse
    rw [hparse]

theorem load_fails_iff : (∃ f, load tree cwd path = .error f) ↔ Unusable tree cwd path := by
  refine ⟨?_, load_fails_of_unusable⟩
  rintro ⟨f, hf⟩
  cases hfind : tree.find cwd path with
  | error r =>
    apply Unusable.missing
    unfold Tree.pathExists
    rw [hfind]
  | ok n =>
    cases n with
    | directory => exact .directory hfind
    | brokenFile => exact .broken hfind
    | file content =>
      rw [load_of_file hfind] at hf
      cases hdecode : Utf8.decode? content with
      | none => exact .notText content hfind hdecode
      | some t =>
        refine .invalid content t hfind hdecode ?_
        rw [hdecode] at hf
        -- Settings in the document would have been loaded.
        cases hparse : (Toml.Document.parse? t).bind ofDocument? with
        | none => rfl
        | some s =>
          simp only [parse, hparse] at hf
          cases hf

end Configuration

namespace Lookup

/-! ### Candidates -/

/-- All that the settings for a scan of `directory` can come from, in the order in which it is
tried. -/
def candidates (directory : Text) (named userDir : Option Text) : List Source :=
  (named.map Source.named).toList ++
    (projectNames.map (Path.join directory)).map Source.project ++
    ((userDir.map (Path.join · userName)).map Source.user).toList ++ [.builtIn]

/-- Whether a candidate counts.  A file named on the command line does, whether it exists or not;
the built-in settings do when nothing else is left. -/
def Source.counts (pathExists : Text → Bool) : Source → Bool
  | named _ | builtIn => true
  | project path | user path => pathExists path

/-- The first candidate that counts is the one that is chosen. -/
theorem find?_candidates (pathExists : Text → Bool) (directory : Text)
    (named userDir : Option Text) :
    (candidates directory named userDir).find? (Source.counts pathExists) =
      some (choose pathExists directory named userDir) := by
  unfold candidates choose
  cases named with
  | some path => rfl
  | none =>
    have hproject : ∀ paths : List Text,
        (paths.map Source.project).find? (Source.counts pathExists) =
          (paths.find? pathExists).map Source.project := by
      intro paths
      rw [List.find?_map]
      rfl
    rw [Option.map_none, Option.toList_none, List.nil_append, List.append_assoc,
      List.find?_append, hproject]
    cases (projectNames.map (Path.join directory)).find? pathExists with
    | some path => rfl
    | none =>
      cases userDir with
      | none => rfl
      | some dir =>
        -- The user's file is the last one that has to exist.
        cases h : pathExists (Path.join dir userName) <;> simp [Source.counts, Option.filter, h]

section Chosen
variable (env : Environment) (tree : Tree) (directory : Text) (config : Option Text)

/-- The source of the settings for a scan. -/
def chosen : Source :=
  choose (tree.pathExists env.cwd) directory config env.userDir

/-- The candidates in front of the one that is chosen. -/
def passedOver : List Source :=
  (candidates directory config env.userDir).takeWhile fun c =>
    !c.counts (tree.pathExists env.cwd)

/-- The settings that a scan starts from, or why there are none. -/
def loaded : Except Failure Settings :=
  settings (Configuration.load tree env.cwd) (chosen env tree directory config)

theorem counts_chosen : (chosen env tree directory config).counts (tree.pathExists env.cwd) = true :=
  List.find?_some (find?_candidates _ directory config env.userDir)

theorem counts_of_mem_passedOver {c : Source} (h : c ∈ passedOver env tree directory config) :
    c.counts (tree.pathExists env.cwd) = false := by
  have hc := List.mem_takeWhile_imp h
  simpa using hc

/-- The chosen source is the first candidate that counts. -/
theorem candidates_eq : ∃ below, candidates directory config env.userDir =
    passedOver env tree directory config ++ chosen env tree directory config :: below := by
  obtain ⟨hcounts, above, below, heq, habove⟩ := List.find?_eq_some_iff_append.1
    (find?_candidates (tree.pathExists env.cwd) directory config env.userDir)
  refine ⟨below, ?_⟩
  have hpassed : passedOver env tree directory config = above := by
    unfold passedOver
    rw [heq, List.takeWhile_append_of_pos habove, List.takeWhile_cons_of_neg (by simp [hcounts]),
      List.append_nil]
  rw [hpassed]
  exact heq

/-! ### Trees with the same lead -/

/-- Two trees are the same as far as a scan of the first one looks for settings: the candidates
down to the chosen one exist in both or in none, and reading the chosen one gives the same, be it
its content or the reason why it cannot be read. -/
structure SameLead (other : Tree) : Prop where
  /-- The same candidates exist down to the chosen one. -/
  existence : ∀ c ∈ passedOver env tree directory config ++ [chosen env tree directory config],
    ∀ path, c.path? = some path →
      other.pathExists env.cwd path = tree.pathExists env.cwd path
  /-- The chosen candidate has the same content. -/
  content : ∀ path, (chosen env tree directory config).path? = some path →
    other.read env.cwd path = tree.read env.cwd path

end Chosen

theorem Source.counts_congr {p q : Text → Bool} {c : Source}
    (h : ∀ path, c.path? = some path → q path = p path) : c.counts q = c.counts p := by
  cases c with
  | named | builtIn => rfl
  | project path | user path => exact h path rfl

section SameLead
variable {env : Environment} {tree other : Tree} {directory : Text} {config : Option Text}

theorem chosen_eq_of_sameLead (h : SameLead env tree directory config other) :
    chosen env other directory config = chosen env tree directory config := by
  have hcounts : ∀ c ∈ passedOver env tree directory config ++ [chosen env tree directory config],
      c.counts (other.pathExists env.cwd) = c.counts (tree.pathExists env.cwd) :=
    fun c hc => Source.counts_congr (h.existence c hc)
  obtain ⟨below, heq⟩ := candidates_eq env tree directory config
  -- In the other tree the search stops at the same place of the same list.
  have hfind : (candidates directory config env.userDir).find?
      (Source.counts (other.pathExists env.cwd)) = some (chosen env tree directory config) := by
    rw [List.find?_eq_some_iff_append]
    refine ⟨?_, _, below, heq, ?_⟩
    · rw [hcounts _ (by simp)]
      exact counts_chosen env tree directory config
    · intro c hc
      rw [hcounts c (by simp [hc]), counts_of_mem_passedOver env tree directory config hc]
      rfl
  rw [find?_candidates] at hfind
  exact Option.some.inj hfind

theorem settings_congr {load load' : Text → Except Configuration.Failure Settings} {c : Source}
    (h : ∀ path, c.path? = some path → load' path = load path) :
    settings load' c = settings load c := by
  unfold settings
  split
  · rfl
  · next path hpath => rw [h path hpath]

/-- What is loaded does not depend on anything behind the chosen candidate. -/
theorem loaded_eq_of_sameLead (h : SameLead env tree directory config other) :
    loaded env other directory config = loaded env tree directory config := by
  unfold loaded
  rw [chosen_eq_of_sameLead h]
  exact settings_congr fun path hpath => Configuration.load_eq_of_read_eq (h.content path hpath)

theorem loaded_of_no_path (h : (chosen env tree directory config).path? = none) :
    loaded env tree directory config = .ok {} := by
  simp only [loaded, settings, h]

theorem loaded_eq_ok_iff {path : Text}
    (h : (chosen env tree directory config).path? = some path) (s : Settings) :
    loaded env tree directory config = .ok s ↔ Configuration.load tree env.cwd path = .ok s := by
  simp only [loaded, settings, h]
  cases Configuration.load tree env.cwd path with
  | ok r => simp
  | error cause => simp

/-- Loading fails exactly if there is something wrong with the chosen file itself. -/
theorem loaded_fails_iff {path : Text}
    (h : (chosen env tree directory config).path? = some path) :
    (∃ cause, loaded env tree directory config = .error ⟨path, cause⟩) ↔
      Configuration.Unusable tree env.cwd path := by
  rw [← Configuration.load_fails_iff]
  simp only [loaded, settings, h]
  cases Configuration.load tree env.cwd path with
  | ok s => simp
  | error cause => simp

end SameLead

/-- The candidates for the settings of a scan are tried in their order, and the first one that
counts decides.  Without a file the settings are the built-in ones.  With a file they are what
that file holds, and if it is missing, a directory, unreadable or invalid, the scan fails.  In any
other tree with the same candidates down to this one, and the same content of this one, the same is
chosen and loaded, whatever the candidates behind it hold. -/
theorem loaded_from_first_candidate (env : Environment) (tree : Tree) (directory : Text)
    (config : Option Text) :
    (∃ below, candidates directory config env.userDir =
      passedOver env tree directory config ++ chosen env tree directory config :: below) ∧
    (∀ c ∈ passedOver env tree directory config, c.counts (tree.pathExists env.cwd) = false) ∧
    (chosen env tree directory config).counts (tree.pathExists env.cwd) = true ∧
    ((chosen env tree directory config).path? = none →
      loaded env tree directory config = .ok {}) ∧
    (∀ path, (chosen env tree directory config).path? = some path →
      (∀ s, loaded env tree directory config = .ok s ↔
        Configuration.load tree env.cwd path = .ok s) ∧
      ((∃ cause, loaded env tree directory config = .error ⟨path, cause⟩) ↔
        Configuration.Unusable tree env.cwd path)) ∧
    (∀ (format : Format) (exclude : List Text) (atypicalOnly : Bool),
      Outcome.scan env tree config directory format exclude atypicalOnly =
        match loaded env tree directory config with
        | .error f => Outcome.failure tree (chosen env tree directory config).log
            (Outcome.lookupComplaint f)
        | .ok s => Outcome.scanFrom env tree (chosen env tree directory config).log
            (Outcome.scanRoot directory (s.excluding exclude)) (s.excluding exclude) format
            atypicalOnly) ∧
    ∀ other : Tree, SameLead env tree directory config other →
      chosen env other directory config = chosen env tree directory config ∧
      loaded env other directory config = loaded env tree directory config := by
  refine ⟨candidates_eq env tree directory config, ?passed, counts_chosen env tree directory config,
    loaded_of_no_path, ?file, ?scan, ?other⟩
  case passed => exact fun c hc => counts_of_mem_passedOver env tree directory config hc
  case file => exact fun path hpath => ⟨loaded_eq_ok_iff hpath, loaded_fails_iff hpath⟩
  case scan =>
    intro format exclude atypicalOnly
    show (match loaded env tree directory config with | .error f => _ | .ok s => _) = _
    cases loaded env tree directory config with
    | error f => rfl
    | ok s => rfl
  case other => exact fun other h => ⟨chosen_eq_of_sameLead h, loaded_eq_of_sameLead h⟩

/-- A directory has the name of the configuration file.  The scan fails, though there is a second
configuration file and a user's one, and it fails in the same way when there are none. -/
theorem loaded_from_first_candidate_directory :
    ∃ cause, loaded ⟨[], none, some "home".toList⟩
        ⟨[(["class-explorer.toml".toList], .directory), ([".class-explorer.toml".toList], .file []),
          (["home".toList], .directory), (["home".toList, "config.toml".toList], .file [])]⟩
        ['.'] none = .error ⟨"./class-explorer.toml".toList, cause⟩ ∧
      loaded ⟨[], none, some "home".toList⟩ ⟨[(["class-explorer.toml".toList], .directory)]⟩
        ['.'] none = .error ⟨"./class-explorer.toml".toList, cause⟩ := by
  obtain ⟨-, -, -, -, hfile, -, hother⟩ := loaded_from_first_candidate
    ⟨[], none, some "home".toList⟩
    ⟨[(["class-explorer.toml".toList], .directory), ([".class-explorer.toml".toList], .file []),
      (["home".toList], .directory), (["home".toList, "config.toml".toList], .file [])]⟩ ['.'] none
  obtain ⟨cause, hcause⟩ := (hfile "./class-explorer.toml".toList (by decide +kernel)).2.2
    (.directory (by decide +kernel))
  refine ⟨cause, hcause, ?_⟩
  rw [← hcause]
  refine (hother _ ⟨?_, ?_⟩).2
  · decide +kernel
  · decide +kernel

end Lookup

end DeclSurvey
