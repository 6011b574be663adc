import DeclSurvey.Command.Outcome
import DeclSurvey.Proofs.Text

/-! # What runs change

Of all command lines only `init` changes the file tree, and only in the place of its configuration
file.  File trees hold no links, so that no other place changes with that one.

* `Occurrence.readFrom_spec`: where an option comes from that has no letter, and
  `Request.force_mem_of_forces`, by which force takes the word `--force`;
* `Tree.write_eq_ok_iff`: when a file is written, and what the tree is then;
* `Outcome.LooksOnly`: a run that changes nothing and prints nothing if it fails;
* `Outcome.MayInit`, `Outcome.init_of_mayInit` and `Outcome.init_of_not_mayInit`: all that `init`
  can do;
* `Outcome.atomic_ofArguments`: any run that fails;
* `Outcome.tree_ofArguments_of_not_forces` and `Outcome.treeAfter_of_not_forces`: one run without
  force, and a sequence of them. -/

namespace DeclSurvey

/-- What a succeeding computation goes through. -/
theorem bind_eq_ok_iff {ε α β : Type} {x : Except ε α} {f : α → Except ε β} {r : β} :
    x >>= f = .ok r ↔ ∃ a, x = .ok a ∧ f a = .ok r := by
  cases x with
  | error e =>
    refine iff_of_false (fun h => by cases h) ?_
    rintro ⟨a, h, -⟩
    cases h
  | ok a =>
    constructor
    · exact fun h => ⟨a, rfl, h⟩
    · rintro ⟨b, h, hb⟩
      cases h
      exact hb

namespace Occurrence

/-! ### Options among the arguments -/

/-- Letters set only options that have one. -/
theorem letter?_ne_none_of_set {switches : List Switch} {s : Switch} {t : Text}
    {reading : Reading} (h : readLetters switches t = .ok reading)
    (hset : .set s ∈ reading.said) : s.letter? ≠ none := by
  induction t generalizing reading with
  | nil =>
    cases h
    cases hset
  | cons c t ih =>
    rw [readLetters] at h
    split at h
    · cases h
    · next r hr =>
      have hletter : r.letter? = some c := by simpa using List.find?_some hr
      split at h
      · -- A value follows, and no other option.
        split at h <;> cases h <;> simp at hset
      · split at h
        · cases h
          have hs : s = r := by simpa using hset
          rw [hs, hletter]
          exact Option.some_ne_none c
        · obtain ⟨rest, hrest, h⟩ := bind_eq_ok_iff.1 h
          cases h
          rcases List.mem_cons.1 hset with heq | hset
          · have hs : s = r := by simpa using heq
            rw [hs, hletter]
            exact Option.some_ne_none c
          · exact ih hrest hset

/-- A long option is set by its full name alone. -/
theorem eq_longName_of_set {switches : List Switch} {s : Switch} {t : Text} {reading : Reading}
    (h : readLong switches t = .ok reading) (hset : .set s ∈ reading.said) : t = s.longName := by
  unfold readLong at h
  cases hr : switches.find? (·.longName == Text.beforeChar '=' t) with
  | none =>
    simp only [hr] at h
    cases h
  | some r =>
    simp only [hr] at h
    by_cases heq : t.contains '=' = true
    · -- With a value the option is not set.
      rw [if_pos heq] at h
      simp only at h
      split at h <;> cases h
      simp at hset
    · rw [if_neg heq] at h
      cases h
      have hname : r.longName = t := by
        have hfound : r.longName = Text.beforeChar '=' t := by simpa using List.find?_some hr
        rw [hfound, Text.beforeChar_of_not_mem (by simpa using heq)]
      split at hset
      · cases hset
      · have hs : s = r := by simpa using hset
        rw [hs, hname]

/-- An option without a letter is set only by its long name. -/
theorem eq_of_set_of_readOption {switches : List Switch} {s : Switch} {arg : Text}
    {reading : Reading} (hletter : s.letter? = none) (hdash : ['-'].isPrefixOf arg = true)
    (h : readOption switches arg = .ok reading) (hset : .set s ∈ reading.said) :
    arg = "--".toList ++ s.longName := by
  unfold readOption at h
  split at h
  · next t => rw [eq_longName_of_set h hset]; rfl
  · exact absurd hletter (letter?_ne_none_of_set h hset)
  · cases hdash

/-- What is read: the rest is the end of the arguments, and an option without a letter is set only
by its long name among them. -/
theorem readFrom_spec {switches : List Switch} {stopAtWord : Bool} {due : Option Switch}
    {args rest : List Text} {said : List Occurrence}
    (h : readFrom switches stopAtWord due args = .ok (said, rest)) :
    rest <:+ args ∧
      ∀ s : Switch, s.letter? = none → .set s ∈ said → "--".toList ++ s.longName ∈ args := by
  induction args generalizing due said rest with
  | nil =>
    cases due with
    | some s => cases h
    | none =>
      cases h
      exact ⟨List.suffix_refl _, fun s _ hset => by cases hset⟩
  | cons arg args ih =>
    -- What is said behind the first argument is said by the others.
    have hlater : ∀ {due' said' rest'},
        readFrom switches stopAtWord due' args = .ok (said', rest') →
        rest' <:+ arg :: args ∧ ∀ s : Switch, s.letter? = none → .set s ∈ said' →
          "--".toList ++ s.longName ∈ arg :: args := by
      intro due' said' rest' h'
      obtain ⟨hsuffix, hset⟩ := ih h'
      exact ⟨hsuffix.trans (List.suffix_cons arg args),
        fun s hs hmem => List.mem_cons_of_mem arg (hset s hs hmem)⟩
    cases due with
    | some w =>
      rw [readFrom] at h
      split at h
      · cases h
      · split at h
        · cases h
        · obtain ⟨⟨said', rest'⟩, h', h⟩ := bind_eq_ok_iff.1 h
          cases h
          obtain ⟨hsuffix, hset⟩ := hlater h'
          exact ⟨hsuffix, fun s hs hmem => hset s hs (by simpa using hmem)⟩
    | none =>
      rw [readFrom] at h
      split at h
      · -- Behind two dashes there are only words.
        split at h <;> cases h
        exact ⟨List.nil_suffix, fun s _ hset => by simp at hset⟩
      · split at h
        · next hdash =>
          obtain ⟨reading, hreading, h⟩ := bind_eq_ok_iff.1 h
          have hhere : ∀ s : Switch, s.letter? = none → .set s ∈ reading.said →
              "--".toList ++ s.longName ∈ arg :: args := by
            intro s hs hmem
            have harg := eq_of_set_of_readOption hs (Bool.and_eq_true_iff.1 hdash).1 hreading hmem
            rw [← harg]
            exact List.mem_cons_self
          split at h
          · cases h
            exact ⟨List.nil_suffix, hhere⟩
          · obtain ⟨⟨said', rest'⟩, h', h⟩ := bind_eq_ok_iff.1 h
            cases h
            obtain ⟨hsuffix, hset⟩ := hlater h'
            refine ⟨hsuffix, ?_⟩
            intro s hs hmem
            rcases List.mem_append.1 hmem with hmem | hmem
            · exact hhere s hs hmem
            · exact hset s hs hmem
        · split at h
          · cases h
            exact ⟨List.suffix_refl _, fun s _ hset => by cases hset⟩
          · obtain ⟨⟨said', rest'⟩, h', h⟩ := bind_eq_ok_iff.1 h
            cases h
            obtain ⟨hsuffix, hset⟩ := hlater h'
            exact ⟨hsuffix, fun s hs hmem => hset s hs (by simpa using hmem)⟩

theorem readFrom_of_readAll {switches : List Switch} {stopAtWord : Bool} {limit : Nat}
    {args rest : List Text} {said : List Occurrence}
    (h : readAll switches stopAtWord limit args = .ok (said, rest)) :
    readFrom switches stopAtWord none args = .ok (said, rest) := by
  obtain ⟨⟨said', rest'⟩, hread, h⟩ := bind_eq_ok_iff.1 h
  obtain ⟨-, -, h⟩ := bind_eq_ok_iff.1 h
  cases h
  exact hread

end Occurrence

namespace Request

/-- A command line asks for `init` by force. -/
def Forces (args : List Text) : Prop :=
  ∃ i : Invocation, ofArguments args = .ok (.run i) ∧ i.command = .init true

theorem force_mem_of_ofCommand {front : List Occurrence} {name : CommandName} {args : List Text}
    {i : Invocation} (h : ofCommand front name args = .ok (.run i)) (hi : i.command = .init true) :
    "--force".toList ∈ args := by
  obtain ⟨⟨said, rest⟩, hread, h⟩ := bind_eq_ok_iff.1 h
  dsimp only at h
  split at h
  · next s _ => cases s <;> cases h
  · obtain ⟨command, hcommand, h⟩ := bind_eq_ok_iff.1 h
    cases h
    have hinit : name.command said = .ok (.init true) := by
      rw [hcommand]
      exact congrArg _ hi
    cases name with
    | inspect =>
      simp only [CommandName.command] at hinit
      split at hinit <;> cases hinit
    | scan => cases hinit
    | init =>
      have hset : Occurrence.isSet .force said = true := by
        simpa [CommandName.command] using hinit
      have hspec := Occurrence.readFrom_spec (Occurrence.readFrom_of_readAll hread)
      exact hspec.2 .force rfl (List.contains_iff_mem.1 hset)

/-- Only a command line with `--force` in it asks for `init` by force. -/
theorem force_mem_of_forces {args : List Text} (h : Forces args) : "--force".toList ∈ args := by
  obtain ⟨i, h, hi⟩ := h
  obtain ⟨⟨front, rest⟩, hread, h⟩ := bind_eq_ok_iff.1 h
  have hsuffix : rest <:+ args :=
    (Occurrence.readFrom_spec (Occurrence.readFrom_of_readAll hread)).1
  dsimp only at h
  split at h
  · next s _ => cases s <;> cases h
  · split at h
    · cases h
    · next word args' =>
      have hargs : args' <:+ args := (List.suffix_cons word args').trans hsuffix
      split at h
      · -- A call for help is no command.
        unfold ofHelp at h
        split at h
        · cases h
        · split at h <;> cases h
        · cases h
      · split at h
        · exact hargs.subset (force_mem_of_ofCommand h hi)
        · cases h

end Request

/-! ### Finding and writing a file -/

namespace Tree
variable {tree : Tree}

theorem find_eq_ok_iff {cwd : Place} {path : Text} {n : Node} :
    tree.find cwd path = .ok n ↔
      ∃ place, tree.resolve cwd path = .ok place ∧ tree.node? place = some n := by
  unfold find
  rw [bind_eq_ok_iff]
  refine exists_congr fun place => and_congr_right fun _ => ?_
  cases tree.node? place <;> simp

theorem follow_dot_eq_ok_iff {place q : Place} :
    tree.follow place ['.'] = .ok q ↔ tree.node? place = some .directory ∧ q = place := by
  unfold follow
  cases tree.node? place with
  | none => simp
  | some n => cases n <;> simp [Node.isDirectory, eq_comm]

/-- A name that is not one of the dots leads to what is there. -/
theorem follow_name_eq_ok_iff {place q : Place} {name : Text}
    (hname : Path.Component.ofPart? name = some (.name name)) :
    tree.follow place name = .ok q ↔
      tree.node? place = some .directory ∧ (tree.node? (place ++ [name])).isSome = true ∧
        q = place ++ [name] := by
  have hplain : ¬ (name.isEmpty || name == ['.']) = true ∧ ¬ (name == ['.', '.']) = true := by
    unfold Path.Component.ofPart? at hname
    split at hname
    · cases hname
    · next hdot =>
      split at hname
      · cases hname
      · next hdots => exact ⟨hdot, hdots⟩
  unfold follow
  cases tree.node? place with
  | none => simp
  | some n =>
    cases n with
    | file c => simp [Node.isDirectory]
    | brokenFile => simp [Node.isDirectory]
    | directory =>
      simp only [Node.isDirectory, Bool.not_true, Bool.false_eq_true, if_false, if_neg hplain.1,
        if_neg hplain.2, true_and]
      split
      · next h => simp [h, eq_comm]
      · next h => simp [h]

/-- A file is written into a directory, where there is none yet or in the stead of another. -/
theorem write_eq_ok_iff {after : Tree} {place : Place} {name : Text} {content : Bytes} :
    tree.write place name content = .ok after ↔
      tree.node? place = some .directory ∧
      (tree.node? (place ++ [name]) = none ∨
        ∃ old, tree.node? (place ++ [name]) = some (.file old)) ∧
      after = tree.put (place ++ [name]) (.file content) := by
  unfold write
  cases tree.node? place with
  | none => simp
  | some n =>
    cases n with
    | file c => simp
    | brokenFile => simp
    | directory =>
      cases tree.node? (place ++ [name]) with
      | none => simp [eq_comm]
      | some m => cases m <;> simp [eq_comm]

end Tree

namespace Outcome

/-! ### The configuration file -/

/-- The place of the configuration file that `init` writes. -/
def configPlace (env : Environment) : Place :=
  env.cwd ++ [configName]

/-- The path by which `init` looks for it. -/
def configPath : Text :=
  "./".toList ++ configName

theorem find_configPath_eq_ok_iff {env : Environment} {tree : Tree} {n : Node} :
    tree.find env.cwd configPath = .ok n ↔
      tree.node? env.cwd = some .directory ∧ tree.node? (configPlace env) = some n := by
  have hparts : Text.splitChar '/' configPath = [['.'], configName] := by decide +kernel
  have hresolve : tree.resolve env.cwd configPath =
      tree.follow env.cwd ['.'] >>= fun place => tree.follow place configName := by
    unfold Tree.resolve
    rw [if_neg (by decide), hparts]
    show (tree.follow env.cwd ['.'] >>= fun place => tree.follow place configName >>= pure) = _
    simp only [bind_pure]
  have hname : Path.Component.ofPart? configName = some (.name configName) := by decide
  rw [Tree.find_eq_ok_iff, hresolve]
  simp only [bind_eq_ok_iff, Tree.follow_dot_eq_ok_iff, Tree.follow_name_eq_ok_iff hname]
  constructor
  · rintro ⟨place, ⟨_, ⟨hcwd, rfl⟩, -, -, rfl⟩, hnode⟩
    exact ⟨hcwd, hnode⟩
  · rintro ⟨hcwd, hnode⟩
    have hsome : (tree.node? (env.cwd ++ [configName])).isSome = true := by
      rw [← configPlace, hnode]
      rfl
    exact ⟨configPlace env, ⟨env.cwd, ⟨hcwd, rfl⟩, hcwd, hsome, rfl⟩, hnode⟩

theorem pathExists_configPath_iff {env : Environment} {tree : Tree} :
    tree.pathExists env.cwd configPath = true ↔
      tree.node? env.cwd = some .directory ∧ (tree.node? (configPlace env)).isSome = true := by
  rw [Option.isSome_iff_exists, ← exists_and_left]
  simp only [← find_configPath_eq_ok_iff]
  unfold Tree.pathExists
  cases tree.find env.cwd configPath <;> simp

/-! ### Runs that only look -/

/-- A run that changes nothing, and prints nothing if it fails. -/
structure LooksOnly (tree : Tree) (o : Outcome) : Prop where
  /-- The tree is as it was. -/
  tree_eq : o.tree = tree
  /-- A failure is told elsewhere. -/
  output_eq : o.exit ≠ 0 → o.output = []

section Looks
variable (env : Environment) (tree : Tree)

theorem looksOnly_failure (log : List LogLine) (complaint : Text) :
    (failure tree log complaint).LooksOnly tree :=
  ⟨rfl, fun _ => rfl⟩

theorem looksOnly_inspect (path : Text) (format : Format) :
    (inspect env tree path format).LooksOnly tree := by
  unfold inspect
  dsimp only
  split
  · exact looksOnly_failure tree _ _
  · exact ⟨rfl, fun h => absurd rfl h⟩

theorem looksOnly_scanWalk (log : List LogLine) (root : Text) (settings : Settings)
    (format : Format) (atypicalOnly : Bool) (entries : List Walk.Entry) :
    (scanWalk env tree log root settings format atypicalOnly entries).LooksOnly tree := by
  unfold scanWalk
  dsimp only
  split
  · exact looksOnly_failure tree _ _
  · exact ⟨rfl, fun h => absurd rfl h⟩

theorem looksOnly_scan (config : Option Text) (path : Text) (format : Format)
    (exclude : List Text) (atypicalOnly : Bool) :
    (scan env tree config path format exclude atypicalOnly).LooksOnly tree := by
  unfold scan
  dsimp only
  split
  · exact looksOnly_failure tree _ _
  · exact looksOnly_scanWalk env tree _ _ _ _ _ _

end Looks

/-! ### What `init` does -/

/-- `init` can write its file: there is a directory to write to, and in it nothing in the place of
the file, or, by force, another file. -/
def MayInit (env : Environment) (tree : Tree) (force : Bool) : Prop :=
  tree.node? env.cwd = some .directory ∧
    (tree.node? (configPlace env) = none ∨
      force = true ∧ ∃ old, tree.node? (configPlace env) = some (.file old))

section Init
variable {env : Environment} {tree : Tree} {force : Bool}

theorem init_of_mayInit (h : MayInit env tree force) :
    init env tree force =
      { output := initOutput
        tree := tree.put (configPlace env) (.file (Utf8.encode defaultConfig)) } := by
  obtain ⟨hcwd, hplace⟩ := h
  have hfree : ¬ (tree.pathExists env.cwd configPath && !force) = true := by
    rw [Bool.and_eq_true, pathExists_configPath_iff]
    rintro ⟨⟨-, hsome⟩, hforce⟩
    rcases hplace with hnone | ⟨hforced, -⟩
    · rw [hnone] at hsome
      cases hsome
    · rw [hforced] at hforce
      cases hforce
  have hwrite : tree.write env.cwd configName (Utf8.encode defaultConfig) =
      .ok (tree.put (configPlace env) (.file (Utf8.encode defaultConfig))) :=
    Tree.write_eq_ok_iff.2 ⟨hcwd, hplace.imp_right And.right, rfl⟩
  unfold init
  dsimp only
  rw [← configPath, if_neg hfree, hwrite]

theorem init_of_not_mayInit (h : ¬ MayInit env tree force) :
    ∃ complaint, init env tree force = failure tree [] complaint := by
  unfold init
  dsimp only
  rw [← configPath]
  split
  · exact ⟨_, rfl⟩
  · next hfree =>
    cases hwrite : tree.write env.cwd configName (Utf8.encode defaultConfig) with
    | error refusal => exact ⟨_, rfl⟩
    | ok after =>
      -- What is written without force is written where nothing was.
      exfalso
      obtain ⟨hcwd, hplace, -⟩ := Tree.write_eq_ok_iff.1 hwrite
      apply h
      refine ⟨hcwd, hplace.imp_right ?_⟩
      rintro ⟨old, hold⟩
      refine ⟨?_, old, hold⟩
      have hexists : tree.pathExists env.cwd configPath = true := by
        rw [pathExists_configPath_iff, configPlace, hold]
        exact ⟨hcwd, rfl⟩
      rw [hexists] at hfree
      simpa using hfree

end Init

/-! ### What a run does -/

section Run
variable {env : Environment} {tree : Tree} {args : List Text}

theorem looksOnly_ofArguments
    (h : ∀ i force, Request.ofArguments args = .ok (.run i) → i.command ≠ .init force) :
    (ofArguments env tree args).LooksOnly tree := by
  unfold ofArguments
  cases hrequest : Request.ofArguments args with
  | error e => exact ⟨rfl, fun _ => rfl⟩
  | ok request =>
    cases request with
    | version => exact ⟨rfl, fun h => absurd rfl h⟩
    | help => exact ⟨rfl, fun h => absurd rfl h⟩
    | run i =>
      show (ofInvocation env tree i).LooksOnly tree
      unfold ofInvocation
      dsimp only
      split
      · have hlooks := looksOnly_inspect env tree
        exact ⟨(hlooks _ _).tree_eq, (hlooks _ _).output_eq⟩
      · have hlooks := looksOnly_scan env tree
        exact ⟨(hlooks _ _ _ _ _).tree_eq, (hlooks _ _ _ _ _).output_eq⟩
      · next force hinit => exact absurd hinit (h i force hrequest)

theorem ofArguments_of_init {i : Invocation} {force : Bool}
    (hrequest : Request.ofArguments args = .ok (.run i)) (hinit : i.command = .init force) :
    ofArguments env tree args =
      { init env tree force with log := LogLine.kept i.verbose (init env tree force).log } := by
  unfold ofArguments
  rw [hrequest]
  show ofInvocation env tree i = _
  unfold ofInvocation
  rw [hinit]

section InitRun
variable {i : Invocation} {force : Bool} (hrequest : Request.ofArguments args = .ok (.run i))
  (hinit : i.command = .init force)
include hrequest hinit

theorem ofArguments_of_mayInit (h : MayInit env tree force) :
    (ofArguments env tree args).exit = 0 ∧
    (ofArguments env tree args).tree =
      tree.put (configPlace env) (.file (Utf8.encode defaultConfig)) := by
  rw [ofArguments_of_init hrequest hinit, init_of_mayInit h]
  exact ⟨rfl, rfl⟩

theorem ofArguments_of_not_mayInit (h : ¬ MayInit env tree force) :
    (ofArguments env tree args).exit ≠ 0 ∧ (ofArguments env tree args).LooksOnly tree := by
  obtain ⟨complaint, hfailure⟩ := init_of_not_mayInit h
  rw [ofArguments_of_init hrequest hinit, hfailure]
  exact ⟨Nat.one_ne_zero, rfl, fun _ => rfl⟩

/-- An `init` run succeeds exactly when it may write its file. -/
theorem exit_eq_zero_iff_mayInit :
    (ofArguments env tree args).exit = 0 ↔ MayInit env tree force := by
  constructor
  · intro hexit
    by_contra hnot
    exact (ofArguments_of_not_mayInit hrequest hinit hnot).1 hexit
  · exact fun h => (ofArguments_of_mayInit hrequest hinit h).1

theorem node?_of_init {place : Place} (hplace : place ≠ configPlace env) :
    (ofArguments env tree args).tree.node? place = tree.node? place := by
  by_cases h : MayInit env tree force
  · have hne : configPlace env ≠ [] := by simp [configPlace]
    rw [(ofArguments_of_mayInit hrequest hinit h).2, Tree.node?_put hne, if_neg hplace]
  · rw [(ofArguments_of_not_mayInit hrequest hinit h).2.tree_eq]

theorem find_configPath_of_init (hexit : (ofArguments env tree args).exit = 0) :
    (ofArguments env tree args).tree.find env.cwd configPath =
      .ok (.file (Utf8.encode defaultConfig)) := by
  have hmay := (exit_eq_zero_iff_mayInit hrequest hinit).1 hexit
  have hne : configPlace env ≠ [] := by simp [configPlace]
  have hcwd : env.cwd ≠ configPlace env := by simp [configPlace]
  rw [find_configPath_eq_ok_iff, node?_of_init hrequest hinit hcwd,
    (ofArguments_of_mayInit hrequest hinit hmay).2, Tree.node?_put hne, if_pos rfl]
  exact ⟨hmay.1, rfl⟩

theorem read_configPath_of_init (hexit : (ofArguments env tree args).exit = 0) :
    (ofArguments env tree args).tree.read env.cwd configPath =
      .ok (Utf8.encode defaultConfig) := by
  unfold Tree.read
  rw [find_configPath_of_init hrequest hinit hexit]
  rfl

theorem looksOnly_of_not_force (hforce : force = false)
    (hsome : (tree.node? (configPlace env)).isSome = true) :
    (ofArguments env tree args).LooksOnly tree := by
  refine (ofArguments_of_not_mayInit hrequest hinit ?_).2
  rintro ⟨-, hnone | ⟨htrue, -⟩⟩
  · rw [hnone] at hsome
    cases hsome
  · rw [hforce] at htrue
    cases htrue

end InitRun

/-- Only `init` can do more than look. -/
theorem looksOnly_or_init (env : Environment) (tree : Tree) (args : List Text) :
    (ofArguments env tree args).LooksOnly tree ∨
      ∃ i force, Request.ofArguments args = .ok (.run i) ∧ i.command = .init force := by
  by_cases hinit : ∃ i force, Request.ofArguments args = .ok (.run i) ∧ i.command = .init force
  · exact Or.inr hinit
  · left
    apply looksOnly_ofArguments
    intro i force hrequest hcommand
    exact hinit ⟨i, force, hrequest, hcommand⟩

/-- A run that fails prints nothing and changes nothing. -/
theorem atomic_ofArguments (hexit : (ofArguments env tree args).exit ≠ 0) :
    (ofArguments env tree args).LooksOnly tree := by
  rcases looksOnly_or_init env tree args with hlooks | ⟨i, force, hrequest, hinit⟩
  · exact hlooks
  · have hnot : ¬ MayInit env tree force := by
      rwa [← exit_eq_zero_iff_mayInit hrequest hinit]
    exact (ofArguments_of_not_mayInit hrequest hinit hnot).2

/-- Where there is a configuration file already, only force changes anything. -/
theorem tree_ofArguments_of_not_forces (hsome : (tree.node? (configPlace env)).isSome = true)
    (hforces : ¬ Request.Forces args) : (ofArguments env tree args).tree = tree := by
  rcases looksOnly_or_init env tree args with hlooks | ⟨i, force, hrequest, hinit⟩
  · exact hlooks.tree_eq
  · have hforce : force = false := by
      rw [← Bool.not_eq_true]
      rintro rfl
      exact hforces ⟨i, hrequest, hinit⟩
    exact (looksOnly_of_not_force hrequest hinit hforce hsome).tree_eq

theorem treeAfter_of_not_forces (hsome : (tree.node? (configPlace env)).isSome = true)
    {runs : List (List Text)} (hforces : ∀ args ∈ runs, ¬ Request.Forces args) :
    treeAfter env tree runs = tree := by
  induction runs with
  | nil => rfl
  | cons args runs ih =>
    have hstep := tree_ofArguments_of_not_forces hsome (hforces args (by simp))
    show treeAfter env (ofArguments env tree args).tree runs = tree
    rw [hstep]
    exact ih fun other hother => hforces other (by simp [hother])

end Run

/-- A run that fails prints nothing and leaves the tree as it was; so does any run but `init`, which
changes at most the place of its configuration file.  It succeeds exactly where it can write, and
the file then holds the default configuration.  Without force, which only `--force` brings about,
nothing that is there is changed; so a sequence of such runs leaves a tree with a configuration file
as it was. -/
theorem runs_confined (env : Environment) :
    (∀ tree args, (ofArguments env tree args).exit ≠ 0 →
      (ofArguments env tree args).output = [] ∧ (ofArguments env tree args).tree = tree) ∧
    (∀ tree args,
      (∀ i force, Request.ofArguments args = .ok (.run i) → i.command ≠ .init force) →
      (ofArguments env tree args).tree = tree) ∧
    (∀ tree args i force, Request.ofArguments args = .ok (.run i) → i.command = .init force →
      (∀ place, place ≠ configPlace env →
        (ofArguments env tree args).tree.node? place = tree.node? place) ∧
      ((ofArguments env tree args).exit = 0 ↔ MayInit env tree force) ∧
      ((ofArguments env tree args).exit = 0 →
        (ofArguments env tree args).tree.read env.cwd configPath =
          .ok (Utf8.encode defaultConfig)) ∧
      (force = false → (tree.node? (configPlace env)).isSome = true →
        (ofArguments env tree args).tree = tree)) ∧
    (∀ args, Request.Forces args → "--force".toList ∈ args) ∧
    ∀ tree runs, (tree.node? (configPlace env)).isSome = true →
      (∀ args ∈ runs, ¬ Request.Forces args) → treeAfter env tree runs = tree := by
  refine ⟨?_, ?_, ?_, ?_, ?_⟩
  · intro tree args hexit
    have hlooks := atomic_ofArguments hexit
    exact ⟨hlooks.output_eq hexit, hlooks.tree_eq⟩
  · intro tree args h
    exact (looksOnly_ofArguments h).tree_eq
  · intro tree args i force hrequest hinit
    refine ⟨?_, exit_eq_zero_iff_mayInit hrequest hinit, ?_, ?_⟩
    · intro place hplace
      exact node?_of_init hrequest hinit hplace
    · exact read_configPath_of_init hrequest hinit
    · intro hforce hsome
      exact (looksOnly_of_not_force hrequest hinit hforce hsome).tree_eq
  · intro args h
    exact Request.force_mem_of_forces h
  · intro tree runs hsome hforces
    exact treeAfter_of_not_forces hsome hforces

/-- A scan that fails, a call for help and an `init` that is refused, in a directory with an empty
configuration file; by force, the last of them would have written to it. -/
theorem runs_confined_without_force :
    treeAfter ⟨[], none, none⟩ ⟨[([configName], .file [])]⟩
        (["scan none", "help init", "init"].map fun line => Text.splitChar ' ' line.toList) =
      ⟨[([configName], .file [])]⟩ ∧
    (ofArguments ⟨[], none, none⟩ ⟨[([configName], .file [])]⟩
        ["init".toList, "--force".toList]).tree.read [] configPath =
      .ok (Utf8.encode defaultConfig) := by
  obtain ⟨-, -, hinit, hforce, hruns⟩ := runs_confined ⟨[], none, none⟩
  constructor
  · have hnone : ∀ args ∈ ["scan none", "help init", "init"].map
        fun line => Text.splitChar ' ' line.toList, "--force".toList ∉ args := by decide
    exact hruns _ _ (by decide) fun args hargs hforces => hnone args hargs (hforce args hforces)
  · have hrequest : Request.ofArguments ["init".toList, "--force".toList] =
        .ok (.run { verbose := false, config := none, command := .init true }) := by decide +kernel
    obtain ⟨-, hexit, hread, -⟩ := hinit ⟨[([configName], .file [])]⟩ _ _ true hrequest rfl
    exact hread (hexit.2 ⟨rfl, Or.inr ⟨rfl, [], by decide⟩⟩)

end Outcome

end DeclSurvey
