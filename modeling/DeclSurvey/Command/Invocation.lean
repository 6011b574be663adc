import DeclSurvey.Facts.Format

/-! # Invocations

What a command line can ask for: a command with its options, the version, or help.  A command line
that cannot be understood is a `UsageError`. -/

namespace DeclSurvey

/-- What the program is to do. -/
inductive Command where
  /-- Survey one file. -/
  | inspect (path : Text) (format : Format)
  /-- Survey the files below a directory. -/
  | scan (path : Text) (format : Format) (exclude : List Text) (atypicalOnly : Bool)
  /-- Write a configuration file. -/
  | init (force : Bool)
  deriving DecidableEq, Repr

/-- A command with the options that all commands have in common. -/
structure Invocation where
  /-- Log everything. -/
  verbose : Bool
  /-- The configuration file to use. -/
  config : Option Text
  /-- What to do. -/
  command : Command
  deriving DecidableEq, Repr

/-- What a command line asks for. -/
inductive Request where
  /-- The version of the program. -/
  | version
  /-- An explanation of the command line. -/
  | help
  /-- A command. -/
  | run (invocation : Invocation)
  deriving DecidableEq, Repr

/-- Why a command line is not understood. -/
inductive UsageError where
  /-- An option that there is not. -/
  | unknownOption (arg : Text)
  /-- An option without its value. -/
  | missingValue
  /-- A value for an option that takes none. -/
  | unexpectedValue (arg : Text)
  /-- A value that an option does not take. -/
  | invalidValue (value : Text)
  /-- An option or a path given twice. -/
  | repeated
  /-- No command, or not a known one. -/
  | noCommand
  /-- A path that has to be given is not. -/
  | missingPath
  deriving DecidableEq, Repr

namespace UsageError

/-- The words for it. -/
def message : UsageError → Text
  | unknownOption arg => "unexpected argument ".toList ++ arg
  | missingValue => "an option lacks its value".toList
  | unexpectedValue arg => "no value belongs to ".toList ++ arg
  | invalidValue value => "invalid value ".toList ++ value
  | repeated => "an option or a path is given twice".toList
  | noCommand => "no known command is given".toList
  | missingPath => "a path is missing".toList

end UsageError

end DeclSurvey
