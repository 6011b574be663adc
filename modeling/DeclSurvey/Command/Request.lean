import DeclSurvey.Command.Arguments

/-! # Reading a command line

A command line is the name of a command with arguments on both sides.  Options that are common to
all commands may stand on either side; on the second side they win.

`Request.ofArguments` reads a whole command line. -/

namespace DeclSurvey

/-- The commands by name. -/
inductive CommandName where
  /-- Survey one file. -/
  | inspect
  /-- Survey the files below a directory. -/
  | scan
  /-- Write a configuration file. -/
  | init
  deriving DecidableEq, Repr

namespace CommandName

/-- The word for a command. -/
def word : CommandName → Text
  | inspect => "inspect".toList
  | scan => "scan".toList
  | init => "init".toList

/-- The command of a word. -/
def ofWord? (t : Text) : Option CommandName :=
  [inspect, scan, init].find? (·.word == t)

/-- The options that may follow the name of a command. -/
def switches : CommandName → List Switch
  | inspect => [.verbose, .config, .help, .format]
  | scan => [.verbose, .config, .help, .format, .exclude, .atypicalOnly]
  | init => [.verbose, .config, .help, .force]

/-- How many words may follow the name of a command. -/
def wordLimit : CommandName → Nat
  | inspect | scan => 1
  | init => 0

/-- The format of what is said, or the format of the command. -/
def formatOf (default : Format) (said : List Occurrence) : Format :=
  ((Occurrence.values .format said).head?.bind Format.ofName?).getD default

/-- The command that the arguments behind its name make up. -/
def command (name : CommandName) (said : List Occurrence) : Except UsageError Command :=
  match name with
  | inspect =>
    match Occurrence.words said with
    | path :: _ => .ok (.inspect path (formatOf .text said))
    | [] => .error .missingPath
  | scan =>
    .ok (.scan ((Occurrence.words said).headD ['.']) (formatOf .compact said)
      (Occurrence.values .exclude said) (Occurrence.isSet .atypicalOnly said))
  | init => .ok (.init (Occurrence.isSet .force said))

end CommandName

namespace Request

/-- The request that an option makes by itself. -/
def ofFinal : Switch → Request
  | .version => .version
  | _ => .help

/-- The word that asks for help. -/
def helpWord : Text := "help".toList

/-- Reads the arguments behind the word for help: at most the name of a command. -/
def ofHelp (args : List Text) : Except UsageError Request :=
  match args with
  | [] => .ok .help
  | [arg] =>
    if arg == helpWord || (CommandName.ofWord? arg).isSome then .ok .help else .error .noCommand
  | _ => .error .noCommand

/-- Reads the arguments behind the name of a command, where `front` is said before it.  Of two
configuration files the one named later counts. -/
def ofCommand (front : List Occurrence) (name : CommandName) (args : List Text) :
    Except UsageError Request := do
  let (said, _) ← Occurrence.readAll name.switches false name.wordLimit args
  match Occurrence.final? said with
  | some s => return ofFinal s
  | none =>
    let command ← name.command said
    return .run
      { verbose := Occurrence.isSet .verbose front || Occurrence.isSet .verbose said
        config := (Occurrence.values .config said).head?.or (Occurrence.values .config front).head?
        command }

/-- Reads a command line. -/
def ofArguments (args : List Text) : Except UsageError Request := do
  let (front, rest) ←
    Occurrence.readAll [.verbose, .config, .version, .help] true 0 args
  match Occurrence.final? front with
  | some s => return ofFinal s
  | none =>
    match rest with
    | [] => .error .noCommand
    | word :: args =>
      if word == helpWord then ofHelp args
      else
        match CommandName.ofWord? word with
        | some name => ofCommand front name args
        | none => .error .noCommand

end Request

end DeclSurvey
