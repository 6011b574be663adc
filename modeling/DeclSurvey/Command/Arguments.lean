import DeclSurvey.Command.Invocation

/-! # Arguments

The arguments of a command line set options, give them values, or are words of their own.

* `Switch` lists the options, `Occurrence` is what an argument says;
* `Occurrence.readAll` reads and checks the arguments on one side of the name of a command.

An option is given once on a side, except for patterns to leave out. -/

namespace DeclSurvey

/-! ### Options -/

/-- The options. -/
inductive Switch where
  /-- Log everything. -/
  | verbose
  /-- The configuration file. -/
  | config
  /-- Show the version. -/
  | version
  /-- Explain the command line. -/
  | help
  /-- The format of the output. -/
  | format
  /-- A pattern to leave out. -/
  | exclude
  /-- Report atypical files only. -/
  | atypicalOnly
  /-- Overwrite a file. -/
  | force
  deriving DecidableEq, Repr

namespace Switch

/-- The long name. -/
def longName : Switch → Text
  | verbose => "verbose".toList
  | config => "config".toList
  | version => "version".toList
  | help => "help".toList
  | format => "format".toList
  | exclude => "exclude".toList
  | atypicalOnly => "atypical-only".toList
  | force => "force".toList

/-- The letter, if there is one. -/
def letter? : Switch → Option Char
  | verbose => some 'v'
  | config => some 'c'
  | version => some 'V'
  | help => some 'h'
  | format => some 'f'
  | exclude => some 'e'
  | atypicalOnly | force => none

/-- Whether a value belongs to it. -/
def takesValue : Switch → Bool
  | config | format | exclude => true
  | verbose | version | help | atypicalOnly | force => false

/-- Whether it ends the reading of the command line at once. -/
def isFinal : Switch → Bool
  | version | help => true
  | verbose | config | format | exclude | atypicalOnly | force => false

/-- Whether it may be given more than once. -/
def mayRepeat : Switch → Bool
  | exclude => true
  | verbose | config | version | help | format | atypicalOnly | force => false

/-- Whether a value is one that the option takes. -/
def accepts (s : Switch) (value : Text) : Bool :=
  match s with
  | config => !value.isEmpty
  | format => (Format.ofName? value).isSome
  | verbose | version | help | exclude | atypicalOnly | force => true

end Switch

/-! ### Reading arguments -/

/-- What an argument says. -/
inductive Occurrence where
  /-- An option is set. -/
  | set (s : Switch)
  /-- An option has a value. -/
  | value (s : Switch) (v : Text)
  /-- A word that belongs to no option. -/
  | word (v : Text)
  deriving DecidableEq, Repr

/-- What the arguments up to some point say, and the option that still waits for its value. -/
structure Reading where
  /-- What is said, in order. -/
  said : List Occurrence := []
  /-- The option whose value is due. -/
  due : Option Switch := none

namespace Occurrence

/-- The option that ends the reading, if one of these does. -/
def final? (said : List Occurrence) : Option Switch :=
  said.findSome? fun
    | set s => if s.isFinal then some s else none
    | _ => none

/-- Reads a cluster of letters. -/
def readLetters (switches : List Switch) : Text → Except UsageError Reading
  | [] => .ok {}
  | c :: t =>
    match switches.find? (·.letter? == some c) with
    | none => .error (.unknownOption ['-', c])
    | some s =>
      if s.takesValue then
        match t with
        | [] => .ok { due := some s }
        | '=' :: v => .ok { said := [.value s v] }
        | v => .ok { said := [.value s v] }
      else if s.isFinal then .ok { said := [.set s] }
      else do
        let rest ← readLetters switches t
        return { rest with said := .set s :: rest.said }

/-- Reads a long option behind its dashes. -/
def readLong (switches : List Switch) (t : Text) : Except UsageError Reading :=
  let name := Text.beforeChar '=' t
  let value? : Option Text := if t.contains '=' then some (t.drop (name.length + 1)) else none
  match switches.find? (·.longName == name), value? with
  | none, _ => .error (.unknownOption ("--".toList ++ name))
  | some s, none => .ok (if s.takesValue then { due := some s } else { said := [.set s] })
  | some s, some v =>
    if s.takesValue then .ok { said := [.value s v] } else .error (.unexpectedValue s.longName)

/-- Reads an argument that starts with a dash and does not end there. -/
def readOption (switches : List Switch) : Text → Except UsageError Reading
  | '-' :: '-' :: t => readLong switches t
  | _ :: t => readLetters switches t
  | [] => .ok {}

/-- Reads the arguments of one side, where `due` is the option whose value comes next.  With
`stopAtWord`, reading ends in front of the first word; it always ends at an option that asks for
the version or for help.  Gives what is said and the arguments that are not read. -/
def readFrom (switches : List Switch) (stopAtWord : Bool) :
    Option Switch → List Text → Except UsageError (List Occurrence × List Text)
  | none, [] => .ok ([], [])
  | some _, [] => .error .missingValue
  | due, arg :: args =>
    -- Behind two dashes there are only words, and no command is named by one of them.
    if arg == "--".toList then
      match due with
      | some _ => .error .missingValue
      | none =>
        if stopAtWord && !args.isEmpty then .error .noCommand else .ok (args.map .word, [])
    -- A dash alone is a word.
    else if ['-'].isPrefixOf arg && arg.length > 1 then
      match due with
      | some _ => .error .missingValue
      | none => do
        let reading ← readOption switches arg
        match final? reading.said with
        | some _ => return (reading.said, [])
        | none =>
          let (said, rest) ← readFrom switches stopAtWord reading.due args
          return (reading.said ++ said, rest)
    else
      match due with
      | some s => do
        let (said, rest) ← readFrom switches stopAtWord none args
        return (.value s arg :: said, rest)
      | none =>
        if stopAtWord then .ok ([], arg :: args)
        else do
          let (said, rest) ← readFrom switches stopAtWord none args
          return (.word arg :: said, rest)

/-- Whether an option is set. -/
def isSet (s : Switch) (said : List Occurrence) : Bool :=
  said.contains (.set s)

/-- The values of an option, in order. -/
def values (s : Switch) (said : List Occurrence) : List Text :=
  said.filterMap fun
    | value r v => if r = s then some v else none
    | _ => none

/-- The words, in order. -/
def words (said : List Occurrence) : List Text :=
  said.filterMap fun
    | word v => some v
    | _ => none

/-- The option of an occurrence. -/
def switch? : Occurrence → Option Switch
  | set s | value s _ => some s
  | word _ => none

/-- Checks that every value is one that its option takes and that nothing is given twice that may
not be; of the words, only the first `wordLimit` are expected, and none is empty. -/
def check (wordLimit : Nat) : List Occurrence → Except UsageError Unit
  | [] => .ok ()
  | o :: said =>
    match o with
    | set s => if said.any (·.switch? == some s) then .error .repeated else check wordLimit said
    | value s v =>
      if !s.accepts v then .error (.invalidValue v)
      else if !s.mayRepeat && said.any (·.switch? == some s) then .error .repeated
      else check wordLimit said
    | word v =>
      if v.isEmpty then .error (.invalidValue v)
      else
        match wordLimit with
        | 0 => .error (.unknownOption v)
        | limit + 1 => check limit said

/-- Reads and checks the arguments of one side. -/
def readAll (switches : List Switch) (stopAtWord : Bool) (wordLimit : Nat) (args : List Text) :
    Except UsageError (List Occurrence × List Text) := do
  let (said, rest) ← readFrom switches stopAtWord none args
  check wordLimit said
  return (said, rest)

end Occurrence

end DeclSurvey
