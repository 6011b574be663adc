import DeclSurvey.Proofs.Decoding
import DeclSurvey.Proofs.Effects
import DeclSurvey.Proofs.LookupOrder
import DeclSurvey.Proofs.TomlText

/-! # Settings as they are written

What becomes of settings that are written in a document, and which documents are refused.

* `Configuration.Holds`: what the table of the settings holds, key by key;
* `Configuration.parse_text_eq_ok_iff`: a written table gives settings exactly if it holds them and
  no key is in it twice;
* `Configuration.parse_written`: all settings can be written;
* `Configuration.parse_text_of_repeated` and `Configuration.parse_open_header`: documents that are
  refused, with a key that is set twice or a header that is left open;
* `Outcome.parse_defaultConfig` and `Outcome.loaded_of_init`: a scan that follows `init` starts from
  the settings that the new file shows. -/

namespace DeclSurvey

namespace Configuration

/-! ### Settings in a table -/

/-- A table holds settings: each known key has a value of its type, or the setting is the built-in
one.  Other keys do not matter. -/
structure Holds (entries : Toml.Entries) (c : Settings) : Prop where
  /-- The directory to scan. -/
  root : orDefault string? ['.'] (entries.lookup "root".toList) = some c.root
  /-- The extensions. -/
  extensions : orDefault strings? ["php".toList] (entries.lookup "extensions".toList) =
    some c.extensions
  /-- The patterns to leave out. -/
  exclude : orDefault strings? [] (entries.lookup "exclude".toList) = some c.exclude
  /-- Whether ignore files count. -/
  respectGitignore : orDefault boolean? true (entries.lookup "respect_gitignore".toList) =
    some c.respectGitignore

theorem ofItem?_table_eq_some_iff {style : Toml.Style} {entries : Toml.Entries} {c : Settings} :
    ofItem? (.table style entries) = some c ↔ Holds entries c := by
  unfold ofItem? settings?
  simp only [Option.bind_eq_bind, Option.bind_eq_some_iff, Option.pure_def, Option.some.injEq]
  constructor
  · rintro ⟨root, hroot, extensions, hextensions, exclude, hexclude, respect, hrespect, rfl⟩
    exact ⟨hroot, hextensions, hexclude, hrespect⟩
  · rintro ⟨hroot, hextensions, hexclude, hrespect⟩
    exact ⟨_, hroot, _, hextensions, _, hexclude, _, hrespect, rfl⟩

theorem parse_eq_ok_iff {t : Text} {c : Settings} :
    parse t = .ok c ↔ (Toml.Document.parse? t).bind ofDocument? = some c := by
  unfold parse
  cases (Toml.Document.parse? t).bind ofDocument? <;> simp

theorem parse_of_parse?_eq_none {t : Text} (h : Toml.Document.parse? t = none) :
    parse t = .error .invalid := by
  unfold parse
  rw [h]
  rfl

/-! ### Written tables -/

section Written
variable {s : Toml.Section}

/-- A written table of settings gives them exactly if it holds them and no key is in it twice. -/
theorem parse_text_eq_ok_iff (hname : s.name = "scanner".toList) {c : Settings} :
    parse s.text = .ok c ↔ (s.entries.map Prod.fst).Nodup ∧ Holds s.entries c := by
  have hholds : ofItem? (.table .explicit s.entries) = some c ↔ Holds s.entries c :=
    ofItem?_table_eq_some_iff
  rw [parse_eq_ok_iff, s.parse?_text, ← hholds]
  by_cases hnodup : (s.entries.map Prod.fst).Nodup
  · have hdocument : ofDocument? [(s.name, .table .explicit s.entries)] =
        ofItem? (.table .explicit s.entries) := by
      rw [hname]
      rfl
    rw [if_pos hnodup, Option.bind_some, hdocument]
    exact ⟨fun h => ⟨hnodup, h⟩, And.right⟩
  · rw [if_neg hnodup]
    constructor
    · intro h
      cases h
    · rintro ⟨h, -⟩
      exact absurd h hnodup

example : parse "\n[scanner]\nroot = \"src\"\nexclude = [\"**/vendor/**\"]\n".toList =
    .ok { root := "src".toList, exclude := ["**/vendor/**".toList] } := by
  decide +kernel

/-- A table with another name says nothing about the settings. -/
theorem parse_text_of_other_name (hname : s.name ≠ "scanner".toList)
    (hnodup : (s.entries.map Prod.fst).Nodup) : parse s.text = .ok {} := by
  have hnone : Toml.Entries.get? [(s.name, .table .explicit s.entries)] "scanner".toList = none := by
    rw [Toml.Entries.get?, List.lookup_cons, beq_false_of_ne (Ne.symm hname)]
    rfl
  rw [parse_eq_ok_iff, s.parse?_text, if_pos hnodup, Option.bind_some, ofDocument?, hnone]
  rfl

/-- A document with a key that is in its table twice is refused, whatever the table is about. -/
theorem parse_text_of_repeated (h : ¬ (s.entries.map Prod.fst).Nodup) :
    parse s.text = .error .invalid := by
  apply parse_of_parse?_eq_none
  rw [s.parse?_text, if_neg h]

end Written

/-- A document whose first header is left open is refused, whatever follows. -/
theorem parse_open_header (ms : List Toml.Document.Margin) {name : Text}
    (bare : Toml.Document.IsBareKey name) (rest : Text) :
    parse (ms.flatMap Toml.Document.Margin.text ++ '[' :: (name ++ '\n' :: rest)) =
      .error .invalid :=
  parse_of_parse?_eq_none (Toml.Document.parse?_open_header ms bare rest)

example : parse "[scanner\nroot = ".toList = .error .invalid := by decide +kernel

/-! ### All settings can be written -/

/-- Settings as a table that holds them. -/
def written (c : Settings) : Toml.Section where
  preface := []
  name := "scanner".toList
  bare := by decide
  rows :=
    [.entry "root".toList (by decide) (.string c.root),
      .entry "extensions".toList (by decide) (.list c.extensions),
      .entry "exclude".toList (by decide) (.column c.exclude),
      .entry "respect_gitignore".toList (by decide) (.boolean c.respectGitignore)]

theorem strings?_array (ts : List Text) : strings? (.array (ts.map .string)) = some ts := by
  show (ts.map Toml.Item.string).mapM string? = some ts
  induction ts with
  | nil => rfl
  | cons t ts ih =>
    rw [List.map_cons, List.mapM_cons, ih]
    rfl

theorem parse_written (c : Settings) : parse (written c).text = .ok c := by
  rw [parse_text_eq_ok_iff rfl]
  refine ⟨?_, rfl, strings?_array _, strings?_array _, rfl⟩
  show ["root".toList, "extensions".toList, "exclude".toList, "respect_gitignore".toList].Nodup
  decide

end Configuration

/-! ### The file of `init` -/

namespace Outcome

/-- The settings that the default configuration shows. -/
def defaultSettings : Settings where
  root := ['.']
  extensions := ["php".toList]
  exclude := ["**/vendor/**".toList, "**/var/cache/**".toList]
  respectGitignore := true

/-- The default configuration, line by line. -/
def defaultSection : Toml.Section where
  preface := [.comment " class-explorer configuration".toList (by decide), .blank]
  name := "scanner".toList
  bare := by decide
  rows :=
    [.margin (.comment
        " Directory to scan, relative to the scanned path (default: \".\")".toList (by decide)),
      .margin (.comment " root = \"./src\"".toList (by decide)),
      .margin .blank,
      .margin (.comment " File extensions to inspect".toList (by decide)),
      .entry "extensions".toList (by decide) (.list defaultSettings.extensions),
      .margin .blank,
      .margin (.comment " Path patterns to skip".toList (by decide)),
      .entry "exclude".toList (by decide) (.column defaultSettings.exclude),
      .margin .blank,
      .margin (.comment " Respect .gitignore files".toList (by decide)),
      .entry "respect_gitignore".toList (by decide) (.boolean defaultSettings.respectGitignore)]

theorem text_defaultSection : defaultSection.text = defaultConfig := by
  unfold defaultConfig defaultSection Toml.Section.text
  simp only [String.toList_append, List.flatMap_cons, List.flatMap_nil, Toml.Document.Row.text,
    Toml.Document.Margin.text, Toml.Literal.text]
  -- Lists of characters in the place of literals spare the kernel the decoding of bytes.
  repeat rw [String.toList_ofList]
  decide +kernel

/-- The default configuration is read as the settings that it shows. -/
theorem parse_defaultConfig : Configuration.parse defaultConfig = .ok defaultSettings := by
  rw [← text_defaultSection, Configuration.parse_text_eq_ok_iff rfl]
  exact ⟨by decide, rfl, rfl, rfl, rfl⟩

section InitRun
variable {env : Environment} {tree : Tree} {args : List Text} {i : Invocation} {force : Bool}

/-- After `init`, a scan of the same directory finds the new file and starts from the settings that
it shows, whatever else is in the tree. -/
theorem loaded_of_init (hrequest : Request.ofArguments args = .ok (.run i))
    (hinit : i.command = .init force) (hexit : (ofArguments env tree args).exit = 0) :
    Lookup.chosen env (ofArguments env tree args).tree ['.'] none = .project configPath ∧
      Lookup.loaded env (ofArguments env tree args).tree ['.'] none = .ok defaultSettings := by
  have hfind := find_configPath_of_init hrequest hinit hexit
  have hexists : (ofArguments env tree args).tree.pathExists env.cwd configPath = true := by
    unfold Tree.pathExists
    rw [hfind]
  have hchosen : Lookup.chosen env (ofArguments env tree args).tree ['.'] none =
      .project configPath := by
    -- The new file has the first of the names that are tried.
    have hnames : Lookup.projectNames.map (Path.join ['.']) =
        [configPath, "./.class-explorer.toml".toList] := by decide +kernel
    unfold Lookup.chosen Lookup.choose
    rw [hnames, List.find?_cons_of_pos hexists]
  refine ⟨hchosen, (Lookup.loaded_eq_ok_iff (congrArg Lookup.Source.path? hchosen) _).2 ?_⟩
  rw [Configuration.load_of_file hfind, Utf8.decode?_encode]
  exact parse_defaultConfig

end InitRun

end Outcome

end DeclSurvey
